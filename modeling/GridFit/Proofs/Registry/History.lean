import GridFit.Proofs.Registry
import Mathlib.Data.List.Basic
import Mathlib.Logic.Relation

/-!
# The history of a registry

A registry changes by requests, which it grants or refuses. The requests that it granted are
its history, and the history alone says what it holds: the definition of a key consists of the
instructions that were recorded since the key was last inserted, and it is closed if the key
was closed since then.

## Implementation notes

Every request is treated alike. What a granted request leaves for its key depends on the
definition that the key had, and on nothing else but the limit (`answer_eq_ok_iff`). That is
why requests on different keys can change places.
-/

namespace GridFit

namespace Registry

/-- A request to change a registry. -/
inductive Request where
  /-- Open an empty definition for a key. -/
  | insert (key : Value)
  /-- Append an instruction to the definition of a key. -/
  | record (key : Value) (ins : Instruction)
  /-- Close the definition of a key. -/
  | close (key : Value)
deriving DecidableEq, Repr

namespace Request

/-- The key that a request is about. -/
def key : Request → Value
  | insert key | record key _ | close key => key

/-- The definition that a request leaves for its key, given the one that the key has. There is
none if the definition cannot be changed in this way. -/
def update? : Request → Option Definition → Option Definition
  | insert _, _ => some {}
  | record _ ins, some d => if d.isClosed then none else some { d with body := d.body.push ins }
  | record _ _, none => none
  | close _, some d => some { d with isClosed := true }
  | close _, none => none

end Request

open Request (update?)

/-- What becomes of a request. -/
def answer (r : Registry) : Request → Except Fault Registry
  | .insert key => r.insert key
  | .record key ins => r.record key ins
  | .close key => r.close key

/-- The registry after a request, which is the same one if the request was refused. -/
def after (r : Registry) (q : Request) : Registry :=
  match r.answer q with
  | .ok r' => r'
  | .error _ => r

/-- The registry after requests in turn, whatever becomes of each of them. -/
def afterAll (r : Registry) (qs : List Request) : Registry :=
  qs.foldl after r

/-- The requests that are granted, in their order. -/
def granted (r : Registry) : List Request → List Request
  | [] => []
  | q :: qs =>
      match r.answer q with
      | .ok r' => q :: r'.granted qs
      | .error _ => r.granted qs

/-! ## Histories -/

/-- The instructions that requests record for a key, in their order. -/
def recorded (key : Value) (done : List Request) : List Instruction :=
  done.filterMap fun
    | .record other ins => if other = key then some ins else none
    | _ => none

/-- The requests behind the last insertion of a key, if there is one. -/
def sinceInsertion? (key : Value) : List Request → Option (List Request)
  | [] => none
  | q :: qs =>
      match sinceInsertion? key qs with
      | some since => some since
      | none => if q = .insert key then some qs else none

/-- The definition of a key that requests leave if all of them are granted. -/
def lastDefinition? (key : Value) (done : List Request) : Option Definition :=
  (sinceInsertion? key done).map fun since =>
    { body := (recorded key since).toArray, isClosed := since.contains (.close key) }

section Histories

variable {key : Value} {done since : List Request} {q : Request}

theorem recorded_append (key : Value) (done more : List Request) :
    recorded key (done ++ more) = recorded key done ++ recorded key more :=
  List.filterMap_append

theorem recorded_record (key : Value) (ins : Instruction) :
    recorded key [.record key ins] = [ins] :=
  List.filterMap_cons_some (if_pos rfl)

theorem recorded_close (key other : Value) : recorded key [.close other] = [] := rfl

/-- A request on another key records nothing. -/
theorem recorded_of_key_ne (h : q.key ≠ key) : recorded key [q] = [] := by
  cases q with
  | record other ins => exact List.filterMap_cons_none (if_neg h)
  | _ => rfl

/-- What changes a closed definition records nothing. -/
theorem recorded_of_isClosed {d e : Definition} (hclosed : d.isClosed = true)
    (h : q.update? (some d) = some e) : recorded q.key [q] = [] := by
  cases q with
  | record key ins => simp [update?, hclosed] at h
  | _ => rfl

theorem sinceInsertion?_eq_none_iff : sinceInsertion? key done = none ↔ .insert key ∉ done := by
  induction done with
  | nil => simp [sinceInsertion?]
  | cons q qs ih =>
      rw [sinceInsertion?, List.mem_cons, not_or, ← ih]
      cases sinceInsertion? key qs with
      | none => simp [eq_comm]
      | some since => simp

/-- The requests behind the last insertion are those that follow an insertion and have no
further one among them. -/
theorem sinceInsertion?_eq_some_iff :
    sinceInsertion? key done = some since ↔
      ∃ before, done = before ++ .insert key :: since ∧ .insert key ∉ since := by
  constructor
  · intro h
    induction done with
    | nil => cases h
    | cons q qs ih =>
        rw [sinceInsertion?] at h
        cases hqs : sinceInsertion? key qs with
        | none =>
            simp only [hqs, Option.ite_none_right_eq_some, Option.some.injEq] at h
            obtain ⟨rfl, rfl⟩ := h
            exact ⟨[], rfl, sinceInsertion?_eq_none_iff.1 hqs⟩
        | some found =>
            simp only [hqs, Option.some.injEq] at h
            obtain ⟨before, rfl, hsince⟩ := ih (hqs.trans (congrArg some h))
            exact ⟨q :: before, rfl, hsince⟩
  · rintro ⟨before, rfl, hsince⟩
    induction before with
    | nil =>
        rw [List.nil_append, sinceInsertion?, sinceInsertion?_eq_none_iff.2 hsince]
        exact if_pos rfl
    | cons q before ih => rw [List.cons_append, sinceInsertion?, ih]

/-- One more request is behind the last insertion, unless it is an insertion itself. -/
theorem sinceInsertion?_concat (key : Value) (done : List Request) (q : Request) :
    sinceInsertion? key (done ++ [q]) =
      if q = .insert key then some [] else (sinceInsertion? key done).map (· ++ [q]) := by
  induction done with
  | nil => rfl
  | cons p done ih =>
      rw [List.cons_append, sinceInsertion?, ih, sinceInsertion?]
      by_cases hq : q = .insert key
      · rw [if_pos hq, if_pos hq]
      · rw [if_neg hq, if_neg hq]
        cases sinceInsertion? key done with
        | none => by_cases hp : p = .insert key <;> simp [hp]
        | some since => rfl

/-- A request on another key does not add to the history of a key. -/
theorem lastDefinition?_concat_of_ne (h : q.key ≠ key) (done : List Request) :
    lastDefinition? key (done ++ [q]) = lastDefinition? key done := by
  have hinsert : q ≠ .insert key := by
    rintro rfl
    exact h rfl
  have hclose : q ≠ .close key := by
    rintro rfl
    exact h rfl
  rw [lastDefinition?, sinceInsertion?_concat, if_neg hinsert, Option.map_map, lastDefinition?]
  congr 1
  funext since
  simp [recorded_append, recorded_of_key_ne h, hclose.symm]

/-- A request on a key changes what the history leaves for the key as it changes the
definition. -/
theorem lastDefinition?_concat {d : Definition}
    (h : q.update? (lastDefinition? q.key done) = some d) :
    lastDefinition? q.key (done ++ [q]) = some d := by
  unfold lastDefinition? at h ⊢
  rw [sinceInsertion?_concat]
  cases q with
  | insert key =>
      cases h
      simp [Request.key, recorded]
  | record key ins =>
      simp only [Request.key] at h ⊢
      cases hsince : sinceInsertion? key done with
      | none => simp [hsince, update?] at h
      | some since =>
          simp only [hsince, Option.map_some, update?] at h
          split at h
          · cases h
          · cases h
            simp [recorded_append, recorded_record]
  | close key =>
      simp only [Request.key] at h ⊢
      cases hsince : sinceInsertion? key done with
      | none => simp [hsince, update?] at h
      | some since =>
          simp only [hsince, Option.map_some, update?] at h
          cases h
          simp [recorded_append, recorded_close]

end Histories

/-! ## Requests that are granted -/

variable {r r' : Registry} {q : Request} {key : Value} {done : List Request}

/-- What is granted is a change of the definition of the key, and of nothing else. -/
theorem eq_replace_of_answer (h : r.answer q = .ok r') :
    ∃ d, q.update? (r.find? q.key) = some d ∧ r' = r.replace q.key d := by
  cases q with
  | insert key => exact ⟨{}, rfl, eq_replace_of_insert h⟩
  | record key ins =>
      obtain ⟨d, hfind, hr'⟩ := eq_replace_of_record h
      have hopen : d.isClosed = false := by
        cases hclosed : d.isClosed with
        | false => rfl
        | true => simp [answer, Registry.record, hfind, hclosed] at h
      exact ⟨_, by simp [Request.key, hfind, update?, hopen], hr'⟩
  | close key =>
      obtain ⟨d, hfind, hr'⟩ := eq_replace_of_close h
      exact ⟨_, by simp only [Request.key, hfind, update?], hr'⟩

/-- A change of a definition that is there takes no room. -/
theorem answer_of_find? {d e : Definition} (hfind : r.find? q.key = some e)
    (hd : q.update? (some e) = some d) (hq : q ≠ .insert q.key) :
    r.answer q = .ok (r.replace q.key d) := by
  cases q with
  | insert key => exact absurd rfl hq
  | record key ins =>
      simp only [update?, Option.ite_none_left_eq_some, Bool.not_eq_true, Option.some.injEq] at hd
      obtain ⟨hopen, rfl⟩ := hd
      exact record_of_find? hfind hopen ins
  | close key =>
      cases hd
      exact close_of_find? hfind

/-- An insertion that leaves the registry within its limit is granted. -/
theorem insert_of_isWithinLimit (h : r.IsWithinLimit) (h' : (r.replace key {}).IsWithinLimit) :
    r.insert key = .ok (r.replace key {}) := by
  cases hinsert : r.insert key with
  | ok r' => rw [eq_replace_of_insert hinsert]
  | error fault =>
      obtain ⟨-, hnew, hlimit⟩ := (insert_eq_error_iff h).1 hinsert
      have hle : (r.replace key {}).size ≤ r.size := h' _ hlimit
      rw [size_replace, if_neg hnew] at hle
      exact absurd hle (Nat.not_succ_le_self _)

/-- No request takes a registry beyond its limit. -/
theorem IsWithinLimit.of_answer (h : r.IsWithinLimit) (hanswer : r.answer q = .ok r') :
    r'.IsWithinLimit := by
  cases q with
  | insert key => exact h.insert hanswer
  | record key ins => exact h.record hanswer
  | close key => exact h.close hanswer

/-- A registry is within its limit if it is so with one more definition. -/
theorem IsWithinLimit.of_replace {d : Definition} (h : (r.replace key d).IsWithinLimit) :
    r.IsWithinLimit := by
  intro max hmax
  have hle := h max hmax
  rw [size_replace] at hle
  split at hle <;> omega

/-- A request is granted exactly if the definition of its key can be changed in the way that it
asks for and the registry is then still within its limit. In place of the definition there is then
the changed one, and nothing else has changed. -/
theorem answer_eq_ok_iff (h : r.IsWithinLimit) : r.answer q = .ok r' ↔
    ∃ d, q.update? (r.find? q.key) = some d ∧ r' = r.replace q.key d ∧ r'.IsWithinLimit := by
  constructor
  · intro hanswer
    obtain ⟨d, hd, hr'⟩ := eq_replace_of_answer hanswer
    exact ⟨d, hd, hr', h.of_answer hanswer⟩
  · rintro ⟨d, hd, rfl, hlimit⟩
    by_cases hq : q = .insert q.key
    · rw [hq] at hd ⊢
      cases hd
      exact insert_of_isWithinLimit h hlimit
    · obtain ⟨e, hfind⟩ : ∃ e, r.find? q.key = some e := by
        cases hfind : r.find? q.key with
        | some e => exact ⟨e, rfl⟩
        | none =>
            rw [hfind] at hd
            cases q with
            | insert key => exact absurd rfl hq
            | _ => cases hd
      exact answer_of_find? hfind (hfind ▸ hd) hq

/-! ## From the history to the registry -/

/-- A registry that is what its history says. -/
structure Remembers (r : Registry) (done : List Request) : Prop where
  /-- The registry is within its limit. -/
  isWithinLimit : r.IsWithinLimit
  /-- The definition of every key is the one that the history leaves. -/
  find?_eq : ∀ key, r.find? key = lastDefinition? key done
  /-- Nothing is recorded for a key after it was closed, until it is inserted again. -/
  recorded_eq_nil : ∀ {key pre post}, sinceInsertion? key done = some (pre ++ .close key :: post) →
    recorded key post = []

/-- A request that is granted is added to the history. -/
theorem Remembers.of_answer (h : r.Remembers done) (hanswer : r.answer q = .ok r') :
    r'.Remembers (done ++ [q]) := by
  obtain ⟨d, hd, rfl⟩ := eq_replace_of_answer hanswer
  refine ⟨h.isWithinLimit.of_answer hanswer, fun key => ?_, fun {key pre post} hsince => ?_⟩
  · by_cases hkey : q.key = key
    · subst hkey
      rw [find?_replace, lastDefinition?_concat (h.find?_eq q.key ▸ hd)]
    · rw [find?_replace_of_ne _ _ (Ne.symm hkey), h.find?_eq, lastDefinition?_concat_of_ne hkey]
  · rw [sinceInsertion?_concat] at hsince
    split at hsince
    · simp at hsince
    · obtain ⟨since, hdone, hsplit⟩ := Option.map_eq_some_iff.1 hsince
      rcases List.eq_nil_or_concat' post with rfl | ⟨post, p, rfl⟩
      · rfl
      · have hsplit' : since ++ [q] = pre ++ .close key :: post ++ [p] := by simpa using hsplit
        obtain ⟨rfl, hlast⟩ := List.append_inj' hsplit' rfl
        obtain rfl := List.singleton_inj.1 hlast
        rw [recorded_append, h.recorded_eq_nil hdone, List.nil_append]
        by_cases hkey : q.key = key
        · subst hkey
          rw [h.find?_eq, lastDefinition?, hdone] at hd
          exact recorded_of_isClosed (by simp) hd
        · exact recorded_of_key_ne hkey

/-- What a registry holds after requests is what the granted ones among them say. -/
theorem Remembers.afterAll (h : r.Remembers done) (qs : List Request) :
    (r.afterAll qs).Remembers (done ++ r.granted qs) := by
  induction qs generalizing r done with
  | nil => simpa [Registry.afterAll, granted] using h
  | cons q qs ih =>
      show ((r.after q).afterAll qs).Remembers _
      rw [granted, after]
      cases hanswer : r.answer q with
      | ok r' => simpa using ih (h.of_answer hanswer)
      | error fault => exact ih h

/-- Requests on different keys that are granted one after the other are granted in the other
order, and lead to the same registry. -/
theorem answer_comm (h : r.IsWithinLimit) {p : Request} {rp rpq : Registry} (hne : p.key ≠ q.key)
    (hp : r.answer p = .ok rp) (hq : rp.answer q = .ok rpq) :
    ∃ rq, r.answer q = .ok rq ∧ rq.answer p = .ok rpq := by
  obtain ⟨d, hd, rfl⟩ := eq_replace_of_answer hp
  obtain ⟨e, he, rfl⟩ := eq_replace_of_answer hq
  rw [find?_replace_of_ne _ _ hne.symm] at he
  have hcomm := r.replace_comm hne.symm e d
  have hend : ((r.replace q.key e).replace p.key d).IsWithinLimit := by
    rw [← hcomm]
    exact (h.of_answer hp).of_answer hq
  have hmiddle : (r.replace q.key e).IsWithinLimit := hend.of_replace
  refine ⟨_, (answer_eq_ok_iff h).2 ⟨e, he, rfl, hmiddle⟩, ?_⟩
  refine (answer_eq_ok_iff hmiddle).2 ⟨d, ?_, hcomm, hcomm ▸ hend⟩
  rw [find?_replace_of_ne _ _ hne]
  exact hd

/-- The registry that requests make of an empty one, whatever becomes of each of them. -/
def ofRequests (limit : Option Nat) (qs : List Request) : Registry :=
  ({ limit } : Registry).afterAll qs

/-- The requests that an empty registry grants, in their order. -/
def history (limit : Option Nat) (qs : List Request) : List Request :=
  ({ limit } : Registry).granted qs

theorem remembers_ofRequests (limit : Option Nat) (qs : List Request) :
    (ofRequests limit qs).Remembers (history limit qs) := by
  have hempty : ({ limit } : Registry).Remembers [] :=
    ⟨.empty limit, fun _ => rfl, fun hsince => by cases hsince⟩
  exact hempty.afterAll qs

/-- Requests leave the limit alone. -/
theorem limit_afterAll (r : Registry) (qs : List Request) : (r.afterAll qs).limit = r.limit := by
  induction qs generalizing r with
  | nil => rfl
  | cons q qs ih =>
      refine (ih (r.after q)).trans ?_
      unfold after
      split
      · next r' hanswer =>
          obtain ⟨d, -, rfl⟩ := eq_replace_of_answer hanswer
          rfl
      · rfl

/-- A registry that is given by its limit and by the requests that it granted. -/
structure IsGivenBy (r : Registry) (limit : Option Nat) (done : List Request) : Prop where
  /-- The keys ascend. -/
  keys_ascend : r.keys.Pairwise (· < ·)
  /-- The keys are those that were inserted. -/
  mem_keys_iff (key : Value) : key ∈ r.keys ↔ .insert key ∈ done
  /-- The entries are the keys in their order, with what is found for them. -/
  entries_eq : r.entries = r.keys.filterMap fun key => (r.find? key).map fun d => (key, d)
  /-- The size is the number of keys. -/
  size_eq : r.size = r.keys.length
  /-- There are no more keys than the limit allows. -/
  size_le {max : Nat} : limit = some max → r.size ≤ max
  /-- Inserting fails just if the key is new and there are as many keys as the limit allows. -/
  insert_fails_iff (key : Value) (fault : Fault) : r.insert key = .error fault ↔
    fault = .tooManyDefinitions ∧ key ∉ r.keys ∧ limit = some r.size
  /-- Recording fails just if the key is not there or its definition is closed. -/
  record_fails_iff (key : Value) (ins : Instruction) (fault : Fault) :
    r.record key ins = .error fault ↔
      fault = .undefinedFunction key ∧ (key ∉ r.keys ∨ ∃ d, r.get key = .ok d)
  /-- Closing fails just if the key is not there. -/
  close_fails_iff (key : Value) (fault : Fault) : r.close key = .error fault ↔
    fault = .undefinedFunction key ∧ key ∉ r.keys
  /-- A definition, open or closed, consists of what was recorded since its key was last
  inserted. -/
  find?_iff (key : Value) (d : Definition) : r.find? key = some d ↔
    ∃ before since, done = before ++ .insert key :: since ∧ .insert key ∉ since ∧
      d = { body := (recorded key since).toArray, isClosed := since.contains (.close key) }
  /-- A definition can be looked up just if its key was closed since it was last inserted. -/
  get_iff (key : Value) (d : Definition) : r.get key = .ok d ↔
    ∃ before since, done = before ++ .insert key :: since ∧ .insert key ∉ since ∧
      .close key ∈ since ∧ d = { body := (recorded key since).toArray, isClosed := true }
  /-- Nothing is recorded after the first closing since the last insertion. -/
  recorded_eq_nil {key : Value} {before pre post : List Request} :
    done = before ++ .insert key :: (pre ++ .close key :: post) →
      .insert key ∉ pre ++ .close key :: post → recorded key post = []

theorem Remembers.find?_eq_some_iff (h : r.Remembers done) {d : Definition} :
    r.find? key = some d ↔ ∃ before since, done = before ++ .insert key :: since ∧
      .insert key ∉ since ∧
      d = { body := (recorded key since).toArray, isClosed := since.contains (.close key) } := by
  rw [h.find?_eq, lastDefinition?, Option.map_eq_some_iff]
  constructor
  · rintro ⟨since, hsince, rfl⟩
    obtain ⟨before, hdone, hlast⟩ := sinceInsertion?_eq_some_iff.1 hsince
    exact ⟨before, since, hdone, hlast, rfl⟩
  · rintro ⟨before, since, hdone, hlast, rfl⟩
    exact ⟨since, sinceInsertion?_eq_some_iff.2 ⟨before, hdone, hlast⟩, rfl⟩

/-- A registry that is what its history says is given by the history. -/
theorem Remembers.isGivenBy (h : r.Remembers done) : r.IsGivenBy r.limit done where
  keys_ascend := r.pairwise_keys
  mem_keys_iff key := by
    have hnone : r.find? key = none ↔ sinceInsertion? key done = none := by
      rw [h.find?_eq, lastDefinition?, Option.map_eq_none_iff]
    rw [find?_eq_none_iff, sinceInsertion?_eq_none_iff] at hnone
    exact not_iff_not.1 hnone
  entries_eq := r.iter_eq_entries.symm
  size_eq := (List.length_map _).symm
  size_le := h.isWithinLimit _
  insert_fails_iff _ _ := insert_eq_error_iff h.isWithinLimit
  record_fails_iff _ _ _ := record_eq_error_iff
  close_fails_iff _ _ := close_eq_error_iff
  find?_iff _ _ := h.find?_eq_some_iff
  get_iff key d := by
    rw [get_eq_ok_iff, h.find?_eq_some_iff]
    constructor
    · rintro ⟨⟨before, since, hdone, hlast, rfl⟩, hclosed⟩
      replace hclosed : since.contains (.close key) = true := hclosed
      exact ⟨before, since, hdone, hlast, List.contains_iff_mem.1 hclosed, by rw [hclosed]⟩
    · rintro ⟨before, since, hdone, hlast, hclose, rfl⟩
      exact ⟨⟨before, since, hdone, hlast, by rw [List.contains_iff_mem.2 hclose]⟩, rfl⟩
  recorded_eq_nil hdone hlast :=
    h.recorded_eq_nil (sinceInsertion?_eq_some_iff.2 ⟨_, hdone, hlast⟩)

/-- Sequences of requests that differ by an exchange of neighbours on different keys that are
both granted. -/
inductive Exchange (limit : Option Nat) : List Request → List Request → Prop
  | swap {front back : List Request} {p q : Request} {rp rpq : Registry} (hne : p.key ≠ q.key)
      (hp : (ofRequests limit front).answer p = .ok rp) (hq : rp.answer q = .ok rpq) :
      Exchange limit (front ++ p :: q :: back) (front ++ q :: p :: back)

theorem after_of_answer (h : r.answer q = .ok r') : r.after q = r' := by
  rw [after, h]

/-- An exchange makes no difference to the registry. -/
theorem Exchange.ofRequests_eq {limit : Option Nat} {qs qs' : List Request}
    (h : Exchange limit qs qs') : ofRequests limit qs' = ofRequests limit qs := by
  cases h with
  | @swap front back p q rp rpq hne hp hq =>
      obtain ⟨rq, hq', hp'⟩ :=
        answer_comm (remembers_ofRequests limit front).isWithinLimit hne hp hq
      have hpq : ((ofRequests limit front).after p).after q = rpq := by
        rw [after_of_answer hp, after_of_answer hq]
      have hqp : ((ofRequests limit front).after q).after p = rpq := by
        rw [after_of_answer hq', after_of_answer hp']
      simp only [ofRequests, Registry.afterAll, List.foldl_append, List.foldl_cons] at hpq hqp ⊢
      rw [hpq, hqp]

/-- A registry refines its history. After any requests on an empty registry, whether it granted
or refused them, the ones that it granted say what it holds and which requests it would refuse
next. No request that is refused changes anything, and none changes the entry of another key.
Sequences of requests that differ by exchanges of neighbours on different keys, both of them
granted, make no difference to what can be looked up and listed. -/
theorem registry_refines_history (limit : Option Nat) (qs : List Request) :
    (ofRequests limit qs).IsGivenBy limit (history limit qs) ∧
    (∀ q key, (q.key ≠ key ∨ ∃ fault, (ofRequests limit qs).answer q = .error fault) →
      (ofRequests limit (qs ++ [q])).find? key = (ofRequests limit qs).find? key) ∧
    ∀ qs', Relation.EqvGen (Exchange limit) qs qs' →
      (∀ key, (ofRequests limit qs').get key = (ofRequests limit qs).get key) ∧
      (ofRequests limit qs').keys = (ofRequests limit qs).keys ∧
      (ofRequests limit qs').entries = (ofRequests limit qs).entries := by
  refine ⟨?_, fun q key hother => ?_, fun qs' hexchange => ?_⟩
  · have hgiven := (remembers_ofRequests limit qs).isGivenBy
    rwa [ofRequests, limit_afterAll] at hgiven
  · have hafter : ofRequests limit (qs ++ [q]) = (ofRequests limit qs).after q := by
      rw [ofRequests, Registry.afterAll, List.foldl_append]
      rfl
    rw [hafter, after]
    cases hanswer : (ofRequests limit qs).answer q with
    | error fault => rfl
    | ok r' =>
        have hne : q.key ≠ key := by
          rcases hother with hne | ⟨fault, hrefused⟩
          · exact hne
          · rw [hanswer] at hrefused
            cases hrefused
        obtain ⟨d, -, rfl⟩ := eq_replace_of_answer hanswer
        exact find?_replace_of_ne _ d hne.symm
  · have hsame : ofRequests limit qs' = ofRequests limit qs := by
      induction hexchange with
      | rel _ _ h => exact h.ofRequests_eq
      | refl => rfl
      | symm _ _ _ ih => exact ih.symm
      | trans _ _ _ _ _ ih ih' => exact ih'.trans ih
    rw [hsame]
    exact ⟨fun _ => rfl, rfl, rfl⟩

/-- Requests of which the last three are refused: the definition is closed, there is no room for
a third key, and there is nothing to close. -/
def crowdedRequests : List Request :=
  [.insert 5, .record 5 ⟨.dup, [], 0⟩, .close 5, .insert (-1), .record 5 ⟨.pop, [], 1⟩, .insert 9,
    .close 9]

/-- The same requests with two neighbours exchanged. -/
def exchangedRequests : List Request :=
  [.insert 5, .record 5 ⟨.dup, [], 0⟩, .insert (-1), .close 5, .record 5 ⟨.pop, [], 1⟩, .insert 9,
    .close 9]

/-- What was recorded before the closing is found, a third key finds no room, and it does not
matter whether the definition is closed before or after the other one is opened. -/
theorem registry_refines_history_crowded :
    (ofRequests (some 2) crowdedRequests).keys = [-1, 5] ∧
      (ofRequests (some 2) crowdedRequests).get 5 =
        .ok { body := #[⟨.dup, [], 0⟩], isClosed := true } ∧
      (ofRequests (some 2) crowdedRequests).insert 9 = .error .tooManyDefinitions ∧
      (ofRequests (some 2) (crowdedRequests ++ [.record 5 ⟨.pop, [], 1⟩])).find? 5 =
        (ofRequests (some 2) crowdedRequests).find? 5 ∧
      (ofRequests (some 2) exchangedRequests).get 5 =
        (ofRequests (some 2) crowdedRequests).get 5 := by
  obtain ⟨hgiven, hothers, hexchanges⟩ := registry_refines_history (some 2) crowdedRequests
  have hkeys : (ofRequests (some 2) crowdedRequests).keys = [-1, 5] := by decide +kernel
  have hexchange : Exchange (some 2) crowdedRequests exchangedRequests :=
    @Exchange.swap _ [.insert 5, .record 5 ⟨.dup, [], 0⟩] _ (.close 5) (.insert (-1)) _ _
      (by decide) rfl rfl
  refine ⟨hkeys, ?_, ?_, ?_, (hexchanges _ (.rel _ _ hexchange)).1 5⟩
  · exact (hgiven.get_iff 5 _).2 ⟨[], [.record 5 ⟨.dup, [], 0⟩, .close 5, .insert (-1)],
      by decide +kernel, by decide, by decide, by decide⟩
  · refine (hgiven.insert_fails_iff 9 _).2 ⟨rfl, ?_, ?_⟩
    · rw [hkeys]
      decide
    · rw [hgiven.size_eq, hkeys]
      rfl
  · exact hothers _ 5 (.inr ⟨.undefinedFunction 5, by decide +kernel⟩)

end Registry

end GridFit
