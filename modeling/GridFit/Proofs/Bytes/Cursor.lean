import GridFit.Bytes.Cursor
import GridFit.Proofs.Bytes.Scalar
import GridFit.Proofs.Computation
import GridFit.Proofs.Word

/-!
# Reads one after the other

A read is granted just if the bytes that it asks for are there. It yields what they stand for, and
the next read begins where it ended. A read that is refused changes nothing. So what reads yield
is, written as bytes again, a part of the sequence without a gap.

## Implementation notes

A sequence that fits in memory is far shorter than the range of positions. Where the end of a read
stops at the last position, the read runs past the end of the sequence in either case, and a read
that does not never moves on so far that its position wraps around.
-/

namespace GridFit

theorem extract_append_extract {α : Type} {l : List α} {i j k : Nat} (hij : i ≤ j) (hjk : j ≤ k) :
    l.extract i j ++ l.extract j k = l.extract i k := by
  obtain ⟨m, rfl⟩ := Nat.exists_eq_add_of_le hij
  obtain ⟨n, rfl⟩ := Nat.exists_eq_add_of_le hjk
  have hlength : i + m + n - i = m + n := by omega
  rw [List.extract, List.extract, List.extract, hlength, List.take_add, List.drop_drop,
    Nat.add_sub_cancel_left, Nat.add_sub_cancel_left]

namespace Cursor

/-- What is asked of a cursor. -/
inductive Request where
  /-- The next scalar of the given type. -/
  | scalar (t : Scalar)
  /-- So many bytes. -/
  | bytes (n : Nat)
deriving DecidableEq, Repr

/-- What a read yields. -/
inductive Datum where
  /-- A number of the given type. -/
  | scalar (t : Scalar) (value : Int)
  /-- Bytes as they are. -/
  | bytes (bs : List UInt8)
deriving DecidableEq, Repr

/-- The bytes that are written for a datum. -/
def Datum.encode : Datum → List UInt8
  | .scalar t value => t.encode value
  | .bytes bs => bs

namespace Request

/-- The number of bytes that a request asks for. -/
def size : Request → Nat
  | .scalar t => t.size
  | .bytes n => n

/-- What the bytes that a request asks for stand for. -/
def datum : Request → List UInt8 → Datum
  | .scalar t, bs => .scalar t (t.value bs)
  | .bytes _, bs => .bytes bs

/-- The read that a request asks for. -/
def read : Request → ReadM Datum
  | .scalar t => do return .scalar t (← nextScalar t)
  | .bytes n => do return .bytes (← nextBytes n)

/-- What was read is written as the bytes that were asked for. -/
theorem encode_datum {r : Request} {bs : List UInt8} (h : bs.length = r.size) :
    (r.datum bs).encode = bs := by
  cases r with
  | scalar t => exact Scalar.encode_value h
  | bytes n => rfl

end Request

/-- A request, the cursor that it found, what came of it and the cursor that it left. -/
structure Exchange where
  /-- The request. -/
  request : Request
  /-- The cursor before the read. -/
  before : Cursor
  /-- What the read yielded, or why it failed. -/
  outcome : Except ReadError Datum
  /-- The cursor after the read. -/
  after : Cursor
deriving DecidableEq, Repr

/-- The bytes that are written for what a read yielded. -/
def Exchange.encode (e : Exchange) : List UInt8 :=
  match e.outcome with
  | .ok d => d.encode
  | .error _ => []

/-- A request to a cursor. -/
def exchange (c : Cursor) (r : Request) : Exchange :=
  match r.read c with
  | .ok d next => { request := r, before := c, outcome := .ok d, after := next }
  | .error e next => { request := r, before := c, outcome := .error e, after := next }

/-- Requests in turn, each of them to the cursor that the one before it left. -/
def exchanges : Cursor → List Request → List Exchange
  | _, [] => []
  | c, r :: rs => c.exchange r :: (c.exchange r).after.exchanges rs

/-- The cursor that requests in turn leave. -/
def afterAll (c : Cursor) (rs : List Request) : Cursor :=
  rs.foldl (fun c r => (c.exchange r).after) c

/-- A position that is not past the end, with so many bytes behind it. -/
def Admits (c : Cursor) (n : Nat) : Prop :=
  c.position ≤ c.bytes.length ∧ n ≤ c.bytes.length - c.position

/-- The cursor with `n` added to its position, which does not wrap around. -/
def movedBy (c : Cursor) (n : Nat) : Cursor :=
  { c with position := c.position + n }

variable {c next last : Cursor} {r : Request} {t : Scalar} {n : Nat} {yielded more : List UInt8}

/-! ## Single reads -/

theorem Admits.add_lt_positionCount (h : c.Admits n) (hc : c.bytes.length ≤ addressableCells) :
    c.position + n < positionCount := by
  obtain ⟨hposition, hn⟩ := h
  have hroom : addressableCells < positionCount := by decide
  omega

theorem Admits.length_extract (h : c.Admits n) :
    (c.bytes.extract c.position (c.position + n)).length = n := by
  obtain ⟨hposition, hn⟩ := h
  rw [List.extract, List.length_take, List.length_drop]
  omega

theorem Admits.advance_eq (h : c.Admits n) (hc : c.bytes.length ≤ addressableCells) :
    c.advance n = c.movedBy n := by
  rw [advance, movedBy, Nat.mod_eq_of_lt (h.add_lt_positionCount hc)]

/-- The bytes of a read that is admitted are those behind the position. -/
theorem window?_of_admits (h : c.Admits n) (hc : c.bytes.length ≤ addressableCells) :
    c.window? n = some (c.bytes.extract c.position (c.position + n)) := by
  have hlt := h.add_lt_positionCount hc
  obtain ⟨hposition, hn⟩ := h
  rw [window?, Nat.min_eq_left (by omega), slice?, if_pos (by omega)]

/-- A read that is not admitted is about no bytes, wherever its end is found. -/
theorem window?_of_not_admits (h : ¬c.Admits n) (hc : c.bytes.length ≤ addressableCells) :
    c.window? n = none := by
  refine if_neg fun hslice => h ?_
  have hroom : addressableCells < positionCount - 1 := by decide
  unfold Admits
  omega

theorem nextBytes_of_admits (h : c.Admits n) (hc : c.bytes.length ≤ addressableCells) :
    nextBytes n c = .ok (c.bytes.extract c.position (c.position + n)) (c.movedBy n) := by
  simp only [nextBytes, window?_of_admits h hc, h.advance_eq hc]

theorem nextBytes_of_not_admits (h : ¬c.Admits n) (hc : c.bytes.length ≤ addressableCells) :
    nextBytes n c = .error .outOfBounds c := by
  simp only [nextBytes, window?_of_not_admits h hc]

theorem nextScalar_of_admits (h : c.Admits t.size) (hc : c.bytes.length ≤ addressableCells) :
    nextScalar t c = .ok (t.value (c.bytes.extract c.position (c.position + t.size)))
      (c.movedBy t.size) := by
  have hdecode := Scalar.decode?_of_length h.length_extract
  simp only [nextScalar, window?_of_admits h hc, Option.bind_some, hdecode, h.advance_eq hc]

theorem nextScalar_of_not_admits (h : ¬c.Admits t.size)
    (hc : c.bytes.length ≤ addressableCells) : nextScalar t c = .error .outOfBounds c := by
  simp only [nextScalar, window?_of_not_admits h hc, Option.bind_none]

/-! ## Single requests -/

/-- A request that is admitted is granted. -/
theorem exchange_of_admits (h : c.Admits r.size) (hc : c.bytes.length ≤ addressableCells) :
    c.exchange r =
      { request := r
        before := c
        outcome := .ok (r.datum (c.bytes.extract c.position (c.position + r.size)))
        after := c.movedBy r.size } := by
  cases r with
  | scalar t =>
      rw [Request.size] at h ⊢
      simp only [exchange, Request.read, bind_apply, nextScalar_of_admits h hc, pure_apply,
        Request.datum]
  | bytes n =>
      rw [Request.size] at h ⊢
      simp only [exchange, Request.read, bind_apply, nextBytes_of_admits h hc, pure_apply,
        Request.datum]

/-- A request that is not admitted is refused. -/
theorem exchange_of_not_admits (h : ¬c.Admits r.size) (hc : c.bytes.length ≤ addressableCells) :
    c.exchange r = { request := r, before := c, outcome := .error .outOfBounds, after := c } := by
  cases r with
  | scalar t =>
      rw [Request.size] at h
      simp only [exchange, Request.read, bind_apply, nextScalar_of_not_admits h hc]
  | bytes n =>
      rw [Request.size] at h
      simp only [exchange, Request.read, bind_apply, nextBytes_of_not_admits h hc]

/-- An exchange that does to a cursor over a sequence what its request asks for, or nothing. -/
structure Exchange.IsExact (e : Exchange) (bytes : List UInt8) : Prop where
  /-- The read is from the sequence. -/
  bytes_before : e.before.bytes = bytes
  /-- The sequence stays the same. -/
  bytes_after : e.after.bytes = bytes
  /-- The read succeeds just if it begins not past the end and as many bytes are left as it asks
  for. -/
  succeeds_iff : (∃ d, e.outcome = .ok d) ↔
    e.before.position ≤ bytes.length ∧ e.request.size ≤ bytes.length - e.before.position
  /-- It then yields what the bytes from its position on stand for. -/
  datum_eq {d : Datum} : e.outcome = .ok d → d = e.request.datum
    (bytes.extract e.before.position (e.before.position + e.request.size))
  /-- It moves on by as many bytes, to a position that a word can hold. -/
  position_after {d : Datum} : e.outcome = .ok d →
    e.after.position = e.before.position + e.request.size ∧
      e.before.position + e.request.size < positionCount
  /-- A read that fails runs past the end, and leaves the cursor as it was. -/
  of_error {error : ReadError} : e.outcome = .error error →
    error = .outOfBounds ∧ e.after = e.before

theorem isExact_exchange (c : Cursor) (r : Request) (hc : c.bytes.length ≤ addressableCells) :
    (c.exchange r).IsExact c.bytes := by
  by_cases h : c.Admits r.size
  · rw [exchange_of_admits h hc]
    exact {
      bytes_before := rfl
      bytes_after := rfl
      succeeds_iff := iff_of_true ⟨_, rfl⟩ h
      datum_eq := fun hd => (Except.ok.inj hd).symm
      position_after := fun _ => ⟨rfl, h.add_lt_positionCount hc⟩
      of_error := fun he => nomatch he }
  · rw [exchange_of_not_admits h hc]
    exact {
      bytes_before := rfl
      bytes_after := rfl
      succeeds_iff := iff_of_false (fun ⟨_, hd⟩ => nomatch hd) h
      datum_eq := fun hd => nomatch hd
      position_after := fun hd => nomatch hd
      of_error := fun he => ⟨(Except.error.inj he).symm, rfl⟩ }

/-! ## Many reads -/

/-- A cursor that has come to another one by yielding the bytes in between. -/
structure Yields (c : Cursor) (yielded : List UInt8) (next : Cursor) : Prop where
  /-- The sequence is the same. -/
  bytes_eq : next.bytes = c.bytes
  /-- The position has moved on by the number of bytes. -/
  position_eq : next.position = c.position + yielded.length
  /-- The bytes are those from the one position to the other. -/
  yielded_eq : yielded = c.bytes.extract c.position next.position

namespace Yields

theorem refl (c : Cursor) : c.Yields [] c where
  bytes_eq := rfl
  position_eq := rfl
  yielded_eq := by rw [List.extract, Nat.sub_self, List.take_zero]

theorem trans (h : c.Yields yielded next) (h' : next.Yields more last) :
    c.Yields (yielded ++ more) last where
  bytes_eq := h'.bytes_eq.trans h.bytes_eq
  position_eq := by rw [h'.position_eq, h.position_eq, List.length_append, Nat.add_assoc]
  yielded_eq := by
    have hmore := h'.yielded_eq
    have hfirst := h.position_eq
    have hsecond := h'.position_eq
    rw [h.bytes_eq] at hmore
    calc yielded ++ more
        = c.bytes.extract c.position next.position ++
            c.bytes.extract next.position last.position := by rw [← h.yielded_eq, ← hmore]
      _ = c.bytes.extract c.position last.position :=
          extract_append_extract (by omega) (by omega)

end Yields

theorem yields_exchange (c : Cursor) (r : Request) (hc : c.bytes.length ≤ addressableCells) :
    c.Yields (c.exchange r).encode (c.exchange r).after := by
  by_cases h : c.Admits r.size
  · have hencode := Request.encode_datum h.length_extract
    have hlength := (congrArg List.length hencode).trans h.length_extract
    rw [exchange_of_admits h hc]
    exact {
      bytes_eq := rfl
      position_eq := congrArg (c.position + ·) hlength.symm
      yielded_eq := hencode }
  · rw [exchange_of_not_admits h hc]
    exact .refl c

/-- What requests in turn yield, in one piece. -/
theorem yields_exchanges (c : Cursor) (rs : List Request) (hc : c.bytes.length ≤ addressableCells) :
    c.Yields ((c.exchanges rs).flatMap Exchange.encode) (c.afterAll rs) := by
  induction rs generalizing c with
  | nil => exact .refl c
  | cons r rs ih =>
      have hfirst := c.yields_exchange r hc
      exact hfirst.trans (ih _ (by rwa [hfirst.bytes_eq]))

theorem isExact_of_mem_exchanges {rs : List Request} {e : Exchange}
    (hc : c.bytes.length ≤ addressableCells) (he : e ∈ c.exchanges rs) : e.IsExact c.bytes := by
  induction rs generalizing c with
  | nil => exact (List.not_mem_nil he).elim
  | cons r rs ih =>
      have hfirst := c.isExact_exchange r hc
      rcases List.mem_cons.1 he with rfl | hrest
      · exact hfirst
      · -- The later requests find the same sequence.
        rw [← hfirst.bytes_after] at hc ⊢
        exact ih hc hrest

/-- Reads are exact, contiguous and atomic. In a sequence that fits in memory, from any position
on, every one of any requests in turn does what it asks for or nothing, and what they all yield is
written as the bytes from the first position to the last one. -/
theorem reads_exact_contiguous_atomic (c : Cursor) (rs : List Request)
    (hc : c.bytes.length ≤ addressableCells) :
    (∀ e ∈ c.exchanges rs, e.IsExact c.bytes) ∧
      c.Yields ((c.exchanges rs).flatMap Exchange.encode) (c.afterAll rs) :=
  ⟨fun _ he => isExact_of_mem_exchanges hc he, c.yields_exchanges rs hc⟩

/-- A cursor at the second of six bytes. -/
def mixedCursor : Cursor :=
  { bytes := [0x07, 0xFF, 0xFE, 0x12, 0x34, 0x56], position := 1 }

/-- Reads of many sizes, three of which run past the end, the largest one by far. -/
def mixedRequests : List Request :=
  [.scalar .int16, .scalar .uint32, .bytes 0xFFFFFFFFFFFFFFFF, .scalar .uint8, .bytes 0,
    .scalar .uint16, .bytes 0, .scalar .int8]

/-- The reads in between those that fail go on where the ones before them ended. -/
theorem reads_exact_contiguous_atomic_mixed :
    mixedCursor.bytes.length ≤ addressableCells ∧
      (mixedCursor.exchanges mixedRequests).map Exchange.outcome =
        [.ok (.scalar .int16 (-2)), .error .outOfBounds, .error .outOfBounds,
          .ok (.scalar .uint8 0x12), .ok (.bytes []), .ok (.scalar .uint16 0x3456),
          .ok (.bytes []), .error .outOfBounds] ∧
      (∀ e ∈ mixedCursor.exchanges mixedRequests, e.IsExact mixedCursor.bytes) ∧
      mixedCursor.Yields [0xFF, 0xFE, 0x12, 0x34, 0x56] { mixedCursor with position := 6 } := by
  have hfits : mixedCursor.bytes.length ≤ addressableCells := by decide
  obtain ⟨hexact, hyields⟩ := reads_exact_contiguous_atomic mixedCursor mixedRequests hfits
  have hencoded : (mixedCursor.exchanges mixedRequests).flatMap Exchange.encode =
      [0xFF, 0xFE, 0x12, 0x34, 0x56] := by decide
  have hafter : mixedCursor.afterAll mixedRequests = { mixedCursor with position := 6 } := by
    decide
  rw [hencoded, hafter] at hyields
  exact ⟨hfits, by decide, hexact, hyields⟩

/-- Past the end even an empty read fails, from the last position there is as well. -/
example : (exchanges { bytes := [0x01, 0x02], position := 0xFFFFFFFFFFFFFFFF }
    [.bytes 0, .scalar .uint8]).map Exchange.outcome =
      [.error .outOfBounds, .error .outOfBounds] := by
  decide

end Cursor

end GridFit
