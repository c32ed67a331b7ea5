import Mathlib.Algebra.GroupWithZero.Nat
import Mathlib.Data.List.TakeWhile
import RecordGraph.Query.Selection

/-!
# Field lists

The paths that go on from one name of a field list, put together, are a shorter field list. So a
field list has an end, and the fuel that its own length gives is enough to follow it there.
-/

namespace RecordGraph

/-! ## Lengths -/

/-- The length of texts with a separator after each of them. -/
def joinedLength (parts : List String) : Nat := (parts.map fun p => p.length + 1).sum

theorem joinedLength_append (parts more : List String) :
    joinedLength (parts ++ more) = joinedLength parts + joinedLength more := by
  simp [joinedLength]

theorem length_joinWith {sep : Char} {parts : List (List Char)} (h : parts ≠ []) :
    (joinWith [sep] parts).length + 1 = (parts.map fun p => p.length + 1).sum := by
  induction parts with
  | nil => exact absurd rfl h
  | cons p ps ih =>
      cases ps with
      | nil => simp [joinWith]
      | cons q qs =>
          have hi := ih (List.cons_ne_nil q qs)
          simp only [joinWith, List.length_append, List.length_cons, List.length_nil, List.map_cons,
            List.sum_cons] at hi ⊢
          omega

theorem length_joinTexts {parts : List String} (h : parts ≠ []) :
    (joinTexts "," parts).length + 1 = joinedLength parts := by
  have hsep : ",".toList = [','] := rfl
  have hne : parts.map String.toList ≠ [] := by simpa using h
  rw [joinTexts, String.length_ofList, hsep, length_joinWith hne, joinedLength, List.map_map]
  simp only [Function.comp_def, String.length_toList]

theorem joinedLength_splitText (sep : Char) (s : String) : joinedLength (splitText sep s) = s.length + 1 := by
  have hj : (joinWith [sep] (splitAt sep s.toList)).length + 1 = _ := length_joinWith (splitAt_ne_nil sep _)
  rw [joinWith_splitAt, String.length_toList] at hj
  rw [hj, joinedLength, splitText, List.map_map]
  simp [Function.comp_def]

theorem length_trim_le (cs : List Char) : (trim cs).length ≤ cs.length := by
  have hs := List.length_dropWhile_le (p := isBlank) cs
  have he := List.length_dropWhile_le (p := isBlank) (trimStart cs).reverse
  simp only [trim, trimEnd, trimStart, List.length_reverse] at hs he ⊢
  omega

theorem length_of_cutAt {sep : Char} {cs before after : List Char} (h : cutAt sep cs = (before, some after)) :
    after.length < cs.length := by
  induction cs generalizing before with
  | nil => simp [cutAt] at h
  | cons c cs ih =>
      rw [cutAt] at h
      split at h
      · cases h; simp
      · simp only [Prod.mk.injEq] at h
        exact Nat.lt_succ_of_lt (ih (Prod.ext rfl h.2))

/-- What each step keeps while it adds the weight of its item holds in the end of all the weight. -/
theorem foldl_weighed {α β : Type} {f : β → α → β} {I : Nat → β → Prop} {weight : α → Nat}
    (keep : ∀ n state item, I n state → I (n + weight item) (f state item)) {items : List α} {n : Nat}
    {start : β} (h : I n start) : I (n + (items.map weight).sum) (items.foldl f start) := by
  induction items generalizing n start with
  | nil => exact h
  | cons item rest ih =>
      have hi := ih (keep n start item h)
      rwa [List.map_cons, List.sum_cons, ← Nat.add_assoc]

/-! ## Groups of paths -/

namespace Selection

theorem mem_addRest {name rest : String} {groups : List (String × List String)}
    {group : String × List String} (h : group ∈ parseFields.addRest name rest groups) :
    group ∈ groups ∨ group.2 = [rest] ∨ ∃ rests, (group.1, rests) ∈ groups ∧ group.2 = rests ++ [rest] := by
  induction groups with
  | nil =>
      rw [parseFields.addRest, List.mem_singleton] at h
      exact .inr (.inl (by rw [h]))
  | cons g gs ih =>
      obtain ⟨n, rests⟩ := g
      rw [parseFields.addRest] at h
      split at h
      · rcases List.mem_cons.mp h with rfl | h
        · split
          · exact .inl (by simp)
          · exact .inr (.inr ⟨rests, by simp, rfl⟩)
        · exact .inl (List.mem_cons_of_mem _ h)
      · rcases List.mem_cons.mp h with rfl | h
        · exact .inl (by simp)
        · rcases ih h with h | h | ⟨rests', h, he⟩
          · exact .inl (List.mem_cons_of_mem _ h)
          · exact .inr (.inl h)
          · exact .inr (.inr ⟨rests', List.mem_cons_of_mem _ h, he⟩)

/-- Each group has paths, which are shorter than `n` when they are joined. -/
def Shorter (n : Nat) (groups : List (String × List String)) : Prop :=
  ∀ group ∈ groups, group.2 ≠ [] ∧ joinedLength group.2 < n

theorem Shorter.mono {n k : Nat} {groups : List (String × List String)} (h : Shorter n groups)
    (hle : n ≤ k) : Shorter k groups :=
  fun group hg => ⟨(h group hg).1, Nat.lt_of_lt_of_le (h group hg).2 hle⟩

theorem Shorter.addRest {n k : Nat} {name rest : String} {groups : List (String × List String)}
    (h : Shorter n groups) (hk : rest.length < k) :
    Shorter (n + (k + 1)) (parseFields.addRest name rest groups) := by
  intro group hg
  have hone : joinedLength [rest] = rest.length + 1 := by simp [joinedLength]
  rcases mem_addRest hg with hg | he | ⟨rests, hr, he⟩
  · exact h.mono (by omega) group hg
  · rw [he, hone]
    exact ⟨nofun, by omega⟩
  · have hlt := (h _ hr).2
    rw [he, joinedLength_append, hone]
    exact ⟨by simp, by dsimp only at hlt; omega⟩

/-- What goes on from a name is shorter than the field list. -/
theorem length_rests_lt {fields name : String} {rests : List String}
    (h : (name, rests) ∈ (parseFields fields).2) : (joinTexts "," rests).length < fields.length := by
  have hall : Shorter (0 + joinedLength (splitText ',' fields)) (parseFields fields).2 := by
    unfold parseFields joinedLength
    refine foldl_weighed (I := fun n (state : List String × List (String × List String)) => Shorter n state.2)
      (fun n state raw hs => ?_) (by simp [Shorter])
    obtain ⟨scalars, groups⟩ := state
    have htrim := length_trim_le raw.toList
    rw [String.length_toList] at htrim
    dsimp only
    split
    · exact hs.mono (by omega)
    · split
      · exact hs.mono (by omega)
      · rename_i head rest hcut
        have hlt := length_of_cutAt hcut
        exact hs.addRest (by rw [String.length_ofList]; omega)
  obtain ⟨hne, hlt⟩ := hall _ h
  have hjoin := length_joinTexts hne
  rw [joinedLength_splitText] at hlt
  dsimp only at hlt hjoin
  omega

end Selection

end RecordGraph
