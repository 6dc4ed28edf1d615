import GridFit.Json
import GridFit.Proofs.Text.Reading

/-!
# Reading JSON documents back

The first character of a document tells whether it is an integer, a truth value, an array or an
object. Where the text of a document ends is seen from the text too, so the members of arrays and
objects are read off one after the other. The indented text thus determines the document.
-/

namespace GridFit.Json

/-! ## Members -/

/-- What holds of integers and truth values, and of arrays and objects if it holds of all that is
in them, holds of all documents. -/
theorem forall_of_members {P : Json → Prop} (int : ∀ n, P (.int n)) (bool : ∀ b, P (.bool b))
    (array : ∀ items, (∀ item ∈ items, P item) → P (.array items))
    (object : ∀ fields, (∀ field ∈ fields, P field.2) → P (.object fields)) (j : Json) : P j :=
  Json.rec (motive_1 := P) (motive_2 := fun items => ∀ item ∈ items, P item)
    (motive_3 := fun fields => ∀ field ∈ fields, P field.2) (motive_4 := fun field => P field.2)
    int bool array object
    (List.forall_mem_nil _) (fun _ _ h hrest => List.forall_mem_cons.2 ⟨h, hrest⟩)
    (List.forall_mem_nil _) (fun _ _ h hrest => List.forall_mem_cons.2 ⟨h, hrest⟩)
    (fun _ _ h => h) j

theorem renderItems_eq_map (level : Nat) (items : List Json) :
    renderItems level items = items.map (render level) := by
  induction items with
  | nil => simp [renderItems]
  | cons item rest ih => rw [renderItems, ih, List.map_cons]

/-- The text of an object field. -/
def renderField (level : Nat) (field : Name × Json) : String :=
  "\"" ++ field.1.text ++ "\": " ++ render level field.2

theorem renderFields_eq_map (level : Nat) (fields : List (Name × Json)) :
    renderFields level fields = fields.map (renderField level) := by
  induction fields with
  | nil => simp [renderFields]
  | cons field rest ih =>
      obtain ⟨name, value⟩ := field
      rw [renderFields, ih, List.map_cons, renderField]

/-! ## Brackets -/

theorem toList_newline (level : Nat) :
    (newline level).toList = '\n' :: List.replicate (2 * level) ' ' := by
  simp [newline]

section Brackets

variable {α : Type} {g : α → String} {l l' : List α} {opening closing : String} {d : Char}
  {level : Nat} {s t : List Char}

theorem toList_enclose_append (hclosing : closing.toList = [d]) (hl : l ≠ []) (s : List Char) :
    (enclose opening closing level (l.map g)).toList ++ s =
      opening.toList ++ ((newline (level + 1)).toList ++
        ((',' :: (newline (level + 1)).toList).intercalate (l.map fun a => (g a).toList) ++
          '\n' :: (List.replicate (2 * level) ' ' ++ d :: s))) := by
  obtain ⟨a, rest, rfl⟩ := List.exists_cons_of_ne_nil hl
  simp [enclose, String.toList_intercalate, toList_newline, hclosing, Function.comp_def]

/-- Where there are members, a line break stands behind the opening bracket. -/
theorem enclose_nil_append_ne (hclosing : closing.toList = [d]) (hd : d ≠ '\n') (hl : l ≠ []) :
    (enclose opening closing level []).toList ++ s ≠
      (enclose opening closing level (l.map g)).toList ++ t := by
  intro h
  rw [toList_enclose_append hclosing hl, toList_newline, enclose, String.toList_append, hclosing,
    List.append_assoc] at h
  exact hd (List.head_eq_of_cons_eq (List.append_cancel_left h))

/-- Members in brackets are read off one after the other, up to the closing bracket. -/
theorem enclose_append_inj (hclosing : closing.toList = [d]) (hd : d ≠ '\n')
    (hread : ∀ a ∈ l, IsReadable (fun a => (g a).toList) a)
    (h : (enclose opening closing level (l.map g)).toList ++ s =
      (enclose opening closing level (l'.map g)).toList ++ t) : l = l' ∧ s = t := by
  rcases eq_or_ne l [] with rfl | hl <;> rcases eq_or_ne l' [] with rfl | hl'
  · exact ⟨rfl, List.append_cancel_left h⟩
  · exact absurd h (enclose_nil_append_ne hclosing hd hl')
  · exact absurd h.symm (enclose_nil_append_ne hclosing hd hl)
  · rw [toList_enclose_append hclosing hl, toList_enclose_append hclosing hl'] at h
    obtain ⟨hmembers, hbehind⟩ := intercalate_append_inj hread (by decide) (by decide)
      (by decide) hl hl' (List.append_cancel_left (List.append_cancel_left h))
    exact ⟨hmembers, List.tail_eq_of_cons_eq (List.append_cancel_left hbehind)⟩

end Brackets

/-! ## Names -/

theorem Name.ext {a b : Name} (h : a.text = b.text) : a = b := by
  cases a
  cases b
  cases h
  rfl

theorem Name.quote_notMem (a : Name) : '\"' ∉ a.text.toList := fun h => by
  cases List.all_eq_true.1 a.plain '\"' h

/-- A name is read off up to the closing quotation mark. -/
theorem Name.append_inj {a b : Name} {s t : List Char}
    (h : a.text.toList ++ '\"' :: s = b.text.toList ++ '\"' :: t) : a = b ∧ s = t := by
  have htake (c : Name) (r : List Char) :
      (c.text.toList ++ '\"' :: r).takeWhile (· != '\"') = c.text.toList := by
    have hplain : ∀ x ∈ c.text.toList, (x != '\"') = true := fun x hx => by
      rw [bne_iff_ne]
      rintro rfl
      exact c.quote_notMem hx
    rw [List.takeWhile_append_of_pos hplain, List.takeWhile_cons_of_neg (by decide),
      List.append_nil]
  have htext : a.text.toList = b.text.toList := by rw [← htake a s, h, htake b t]
  obtain rfl := Name.ext (String.toList_inj.1 htext)
  exact ⟨rfl, List.tail_eq_of_cons_eq (List.append_cancel_left h)⟩

/-! ## Documents -/

/-- Whether a document of this kind can begin with a character. -/
def begins : Json → Char → Bool
  | int _, c => isNumeric c
  | bool b, c => c == if b then 't' else 'f'
  | array _, c => c == '['
  | object _, c => c == '\x7b'

theorem exists_enclose (opening closing : String) (level : Nat) (members : List String) :
    ∃ rest, enclose opening closing level members = opening ++ rest := by
  cases members with
  | nil => exact ⟨_, rfl⟩
  | cons first rest =>
      simp only [enclose, String.append_assoc]
      exact ⟨_, rfl⟩

theorem exists_render (level : Nat) (j : Json) :
    ∃ c rest, (render level j).toList = c :: rest ∧ j.begins c = true := by
  cases j with
  | int n =>
      rw [render]
      exact exists_toString_int n
  | bool b =>
      cases b with
      | true => exact ⟨'t', ['r', 'u', 'e'], by simp [render], rfl⟩
      | false => exact ⟨'f', ['a', 'l', 's', 'e'], by simp [render], rfl⟩
  | array items =>
      obtain ⟨rest, hrest⟩ := exists_enclose "[" "]" level (renderItems (level + 1) items)
      rw [render, hrest, String.toList_append]
      exact ⟨'[', rest.toList, rfl, rfl⟩
  | object fields =>
      obtain ⟨rest, hrest⟩ :=
        exists_enclose "\x7b" "\x7d" level (renderFields (level + 1) fields)
      rw [render, hrest, String.toList_append]
      exact ⟨'\x7b', rest.toList, rfl, rfl⟩

/-- A field is read off if its value is. -/
theorem isReadable_renderField {level : Nat} {field : Name × Json}
    (h : IsReadable (fun j => (render level j).toList) field.2) :
    IsReadable (fun f => (renderField level f).toList) field := by
  obtain ⟨name, value⟩ := field
  rintro ⟨name', value'⟩ s t hs ht heq
  have hfield (name : Name) (value : Json) (r : List Char) :
      (renderField level (name, value)).toList ++ r =
        '\"' :: (name.text.toList ++ '\"' :: ':' :: ' ' :: ((render level value).toList ++ r)) := by
    simp [renderField]
  simp only [hfield] at heq
  obtain ⟨rfl, hvalue⟩ := Name.append_inj (List.tail_eq_of_cons_eq heq)
  obtain ⟨rfl, hst⟩ := h _ _ _ hs ht
    (List.tail_eq_of_cons_eq (List.tail_eq_of_cons_eq hvalue))
  exact ⟨rfl, hst⟩

/-- Documents with the same text in front of them are of the same kind. -/
theorem exists_begins {level : Nat} {j k : Json} {s t : List Char}
    (h : (render level j).toList ++ s = (render level k).toList ++ t) :
    ∃ c, j.begins c = true ∧ k.begins c = true := by
  obtain ⟨c, rest, hj, hc⟩ := exists_render level j
  obtain ⟨c', rest', hk, hc'⟩ := exists_render level k
  rw [hj, hk] at h
  obtain rfl : c = c' := List.head_eq_of_cons_eq h
  exact ⟨c, hc, hc'⟩

/-- A document is read off the front of a text. -/
theorem isReadable_render (j : Json) :
    ∀ level, IsReadable (fun k => (render level k).toList) j := by
  induction j using forall_of_members with
  | int n =>
      intro level k s t hs ht h
      obtain ⟨c, hc, hc'⟩ := exists_begins h
      cases k with
      | int m =>
          obtain ⟨rfl, hst⟩ := toString_int_append_inj hs ht h
          exact ⟨rfl, hst⟩
      | bool b => cases b <;> (obtain rfl := eq_of_beq hc'; cases hc)
      | _ =>
          obtain rfl := eq_of_beq hc'
          cases hc
  | bool b =>
      intro level k s t hs ht h
      obtain ⟨c, hc, hc'⟩ := exists_begins h
      obtain rfl := eq_of_beq hc
      cases k with
      | bool b' =>
          cases b <;> cases b' <;>
            first | exact ⟨rfl, List.append_cancel_left h⟩ | cases hc'
      | _ => cases b <;> cases hc'
  | array items ih =>
      intro level k s t hs ht h
      obtain ⟨c, hc, hc'⟩ := exists_begins h
      obtain rfl := eq_of_beq hc
      cases k with
      | array items' =>
          simp only [render, renderItems_eq_map] at h
          obtain ⟨rfl, hst⟩ := enclose_append_inj rfl (by decide)
            (fun item hitem => ih item hitem (level + 1)) h
          exact ⟨rfl, hst⟩
      | bool b => cases b <;> cases hc'
      | _ => cases hc'
  | object fields ih =>
      intro level k s t hs ht h
      obtain ⟨c, hc, hc'⟩ := exists_begins h
      obtain rfl := eq_of_beq hc
      cases k with
      | object fields' =>
          simp only [render, renderFields_eq_map] at h
          obtain ⟨rfl, hst⟩ := enclose_append_inj rfl (by decide)
            (fun field hfield => isReadable_renderField (ih field hfield (level + 1))) h
          exact ⟨rfl, hst⟩
      | bool b => cases b <;> cases hc'
      | _ => cases hc'

/-- The indented text of a document determines it. -/
theorem pretty_injective : Function.Injective pretty := by
  intro j k h
  have hlist : (render 0 j).toList ++ [] = (render 0 k).toList ++ [] := by
    rw [← pretty, ← pretty, h]
  exact (isReadable_render j 0 k [] [] endsNumber_nil endsNumber_nil hlist).1

end GridFit.Json
