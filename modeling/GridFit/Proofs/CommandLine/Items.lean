import GridFit.CommandLine.Arguments
import Mathlib.Data.List.TakeWhile

/-!
# How a command line is written

The arguments of a command line are told apart just as they are written: a switch by its name or a
letter, a setting by its name with the value behind it or behind an equals sign, and a file by its
path.
-/

namespace GridFit.CommandLine

variable {args : List String} {given rest : List Item} {name value : String}
  {value? : Option String} {flag : List Char}

/-- The arguments by which a command line asks for its items. -/
inductive Written : List String → List Item → Prop
  | nil : Written [] []
  /-- Behind a double dash there are only files. -/
  | paths {paths : List String} : Written ("--" :: paths) (paths.map .file)
  /-- The path of a file has no dash in front, or is a dash. -/
  | path {path : String} {args : List String} {given : List Item}
      (hpath : path.toList.head? ≠ some '-' ∨ path = "-") (h : Written args given) :
      Written (path :: args) (.file path :: given)
  /-- Letters stand for switches. There is only one. -/
  | letters {n : Nat} {args : List String} {given : List Item} (h : Written args given) :
      Written (String.ofList ('-' :: List.replicate (n + 1) 'd') :: args)
        (List.replicate (n + 1) (.switch .disassemble) ++ given)
  | switch {s : Switch} {args : List String} {given : List Item} (h : Written args given) :
      Written (("--" ++ s.name) :: args) (.switch s :: given)
  /-- The value stands behind the setting. -/
  | setting {s : Setting} {value : String} {args : List String} {given : List Item}
      (hvalue : s.acceptsNext value = true) (h : Written args given) :
      Written (("--" ++ s.name) :: value :: args) (.setting s value :: given)
  /-- The value stands behind an equals sign. -/
  | assignment {s : Setting} {value : String} {args : List String} {given : List Item}
      (h : Written args given) :
      Written (("--" ++ s.name ++ "=" ++ value) :: args) (.setting s value :: given)

/-! ## Names -/

theorem Switch.ofName?_eq_some_iff {s : Switch} : ofName? name = some s ↔ s.name = name := by
  constructor
  · intro h
    rw [ofName?] at h
    simpa using List.find?_some h
  · rintro rfl
    cases s <;> decide +kernel

theorem Setting.ofName?_eq_some_iff {s : Setting} : ofName? name = some s ↔ s.name = name := by
  constructor
  · intro h
    rw [ofName?] at h
    simpa using List.find?_some h
  · rintro rfl
    cases s <;> decide +kernel

theorem Switch.eq_of_ofLetter? {c : Char} {s : Switch} (h : ofLetter? c = some s) :
    c = 'd' ∧ s = .disassemble := by
  unfold ofLetter? at h
  split at h
  · exact ⟨rfl, (Option.some.inj h).symm⟩
  · cases h

theorem Switch.equals_notMem (s : Switch) : '=' ∉ s.name.toList := by
  cases s <;> decide +kernel

theorem Setting.equals_notMem (s : Setting) : '=' ∉ s.name.toList := by
  cases s <;> decide +kernel

/-- Without an equals sign there is only a name. -/
theorem nameAndValue_eq_none_iff :
    nameAndValue flag = (name, none) ↔ flag = name.toList ∧ '=' ∉ flag := by
  unfold nameAndValue
  constructor
  · intro h
    split at h
    · next hdrop =>
        obtain ⟨rfl, -⟩ := Prod.mk.inj h
        refine ⟨String.toList_ofList.symm, fun hmem => ?_⟩
        simpa using List.dropWhile_eq_nil_iff.1 hdrop '=' hmem
    · cases h
  · rintro ⟨rfl, hnone⟩
    have hdrop : name.toList.dropWhile (fun c => c != '=') = [] :=
      List.dropWhile_eq_nil_iff.2 fun c hc => bne_iff_ne.2 fun heq => hnone (heq ▸ hc)
    rw [hdrop, String.ofList_toList]

/-- The name ends at the first equals sign. -/
theorem nameAndValue_eq_some_iff :
    nameAndValue flag = (name, some value) ↔
      '=' ∉ name.toList ∧ flag = name.toList ++ '=' :: value.toList := by
  unfold nameAndValue
  constructor
  · intro h
    split at h
    · cases h
    · next c behind hdrop =>
        obtain ⟨rfl, hvalue⟩ := Prod.mk.inj h
        obtain rfl := Option.some.inj hvalue
        have hc := List.head?_dropWhile_not (fun c => c != '=') flag
        simp only [hdrop, List.head?_cons, bne_eq_false_iff_eq] at hc
        subst hc
        rw [String.toList_ofList, String.toList_ofList, ← hdrop,
          List.takeWhile_append_dropWhile]
        exact ⟨fun hmem => by simpa using List.mem_takeWhile_imp hmem, rfl⟩
  · rintro ⟨hname, rfl⟩
    have hletters : ∀ c ∈ name.toList, (c != '=') = true :=
      fun c hc => bne_iff_ne.2 fun heq => hname (heq ▸ hc)
    rw [List.dropWhile_append_of_pos hletters, List.takeWhile_append_of_pos hletters]
    simp

/-! ## Arguments -/

theorem prepend_eq_ok_iff {front : List Item} {r : Except UsageError (List Item)} :
    prepend front r = .ok given ↔ ∃ rest, r = .ok rest ∧ given = front ++ rest := by
  cases r <;> simp [prepend, eq_comm]

theorem lettered_eq_ok_iff {arg : String} {cs : List Char} : lettered arg cs = .ok given ↔
    ∃ n, cs = List.replicate n 'd' ∧ given = List.replicate n (.switch .disassemble) := by
  induction cs generalizing given with
  | nil =>
      constructor
      · intro h
        cases h
        exact ⟨0, rfl, rfl⟩
      · rintro ⟨n, hn, rfl⟩
        obtain rfl := (List.replicate_eq_nil_iff _).1 hn.symm
        rfl
  | cons c cs ih =>
      rw [lettered]
      constructor
      · intro h
        split at h
        · cases h
        · next s hs =>
            obtain ⟨rfl, rfl⟩ := Switch.eq_of_ofLetter? hs
            split at h
            · next rest hrest =>
                cases h
                obtain ⟨n, rfl, rfl⟩ := ih.1 hrest
                exact ⟨n + 1, rfl, rfl⟩
            · cases h
      · rintro ⟨n, hcs, rfl⟩
        cases n with
        | zero => cases hcs
        | succ n =>
            obtain ⟨rfl, rfl⟩ := List.cons.inj hcs
            simp only [Switch.ofLetter?, ih.2 ⟨n, rfl, rfl⟩]
            rfl

/-- What is told apart is written there. -/
theorem written_of_items (h : items args = .ok given) : Written args given := by
  fun_induction items args generalizing given with
  | case1 =>
      cases h
      exact .nil
  | case2 arg rest harg =>
      cases h
      obtain rfl : arg = "--" := String.toList_inj.1 harg
      exact .paths
  | case3 arg rest flag hflag harg name s hs hname ih =>
      obtain ⟨more, hmore, rfl⟩ := prepend_eq_ok_iff.1 h
      obtain ⟨rfl, -⟩ := nameAndValue_eq_none_iff.1 hname
      obtain rfl := Switch.ofName?_eq_some_iff.1 hs
      obtain rfl : arg = "--" ++ s.name := String.toList_inj.1 (by simp [harg])
      exact .switch (ih hmore)
  | case5 arg rest flag hflag harg name s value hs hswitch hname ih =>
      obtain ⟨more, hmore, rfl⟩ := prepend_eq_ok_iff.1 h
      obtain ⟨-, rfl⟩ := nameAndValue_eq_some_iff.1 hname
      obtain rfl := Setting.ofName?_eq_some_iff.1 hs
      obtain rfl : arg = "--" ++ s.name ++ "=" ++ value :=
        String.toList_inj.1 (by simp [harg])
      exact .assignment (ih hmore)
  | case7 arg flag hflag harg name s hs hswitch value rest hvalue hname ih =>
      obtain ⟨more, hmore, rfl⟩ := prepend_eq_ok_iff.1 h
      obtain ⟨rfl, -⟩ := nameAndValue_eq_none_iff.1 hname
      obtain rfl := Setting.ofName?_eq_some_iff.1 hs
      obtain rfl : arg = "--" ++ s.name := String.toList_inj.1 (by simp [harg])
      exact .setting hvalue (ih hmore)
  | case10 arg rest c cs hcs hc harg switches hswitches ih =>
      obtain ⟨more, hmore, rfl⟩ := prepend_eq_ok_iff.1 h
      obtain ⟨n, hn, rfl⟩ := lettered_eq_ok_iff.1 hswitches
      cases n with
      | zero => cases hn
      | succ n =>
          obtain rfl : arg = String.ofList ('-' :: List.replicate (n + 1) 'd') :=
            String.toList_inj.1 (by rw [harg, hn, String.toList_ofList])
          exact .letters (ih hmore)
  | case12 arg rest hdashes hlong hletters ih =>
      obtain ⟨more, hmore, rfl⟩ := prepend_eq_ok_iff.1 h
      refine .path ?_ (ih hmore)
      cases harg : arg.toList with
      | nil => exact .inl (by simp)
      | cons c cs =>
          by_cases hc : c = '-'
          · subst hc
            cases cs with
            | nil => exact .inr (String.toList_inj.1 harg)
            | cons c cs => exact absurd harg fun h => hletters c cs h
          · exact .inl fun hhead => hc (Option.some.inj hhead)
  | _ => cases h

theorem items_switch (s : Switch) (args : List String) :
    items (("--" ++ s.name) :: args) = prepend [.switch s] (items args) := by
  cases s <;> rfl

theorem items_setting (s : Setting) (args : List String) (hvalue : s.acceptsNext value = true) :
    items (("--" ++ s.name) :: value :: args) = prepend [.setting s value] (items args) := by
  have hnext : items (("--" ++ s.name) :: value :: args) =
      if s.acceptsNext value then prepend [.setting s value] (items args)
      else .error (.missingValue s) := by
    cases s <;> rfl
  rw [hnext, if_pos hvalue]

theorem items_assignment (s : Setting) (value : String) (args : List String) :
    items (("--" ++ s.name ++ "=" ++ value) :: args) = prepend [.setting s value] (items args) := by
  have hvalue : items (("--" ++ s.name ++ "=" ++ value) :: args) =
      prepend [.setting s (String.ofList value.toList)] (items args) := by
    rw [items]
    simp only [String.toList_append]
    cases s <;> rfl
  rw [hvalue, String.ofList_toList]

theorem items_letters (n : Nat) (args : List String) :
    items (String.ofList ('-' :: List.replicate (n + 1) 'd') :: args) =
      prepend (List.replicate (n + 1) (.switch .disassemble)) (items args) := by
  have hletters (arg : String) : lettered arg (List.replicate (n + 1) 'd') =
      .ok (List.replicate (n + 1) (.switch .disassemble)) :=
    lettered_eq_ok_iff.2 ⟨n + 1, rfl, rfl⟩
  rw [items]
  split
  · next heq => simp [List.replicate_succ] at heq
  · next heq => simp [List.replicate_succ] at heq
  · next c cs heq =>
      rw [String.toList_ofList] at heq
      rw [← List.tail_eq_of_cons_eq heq, hletters]
  · next hnone => exact absurd String.toList_ofList (hnone _ _)

/-- What is written is told apart. -/
theorem items_of_written (h : Written args given) : items args = .ok given := by
  induction h with
  | nil => rfl
  | paths => rfl
  | @path path args given hpath _ ih =>
      have hplain (c : Char) (cs : List Char) : path.toList ≠ '-' :: c :: cs := by
        intro heq
        rcases hpath with hpath | rfl
        · exact hpath (by rw [heq, List.head?_cons])
        · cases heq
      rw [items]
      split
      · next heq => exact absurd heq (hplain _ _)
      · next heq => exact absurd heq (hplain _ _)
      · next heq => exact absurd heq (hplain _ _)
      · rw [ih]
        rfl
  | letters _ ih => rw [items_letters, ih, prepend]
  | switch _ ih => rw [items_switch, ih, prepend, List.singleton_append]
  | setting hvalue _ ih => rw [items_setting _ _ hvalue, ih, prepend, List.singleton_append]
  | assignment _ ih => rw [items_assignment, ih, prepend, List.singleton_append]

theorem items_eq_ok_iff : items args = .ok given ↔ Written args given :=
  ⟨written_of_items, items_of_written⟩

end GridFit.CommandLine
