import Mathlib.Data.List.Forall2
import RecordGraph.Failure.Basic

/-!
# Successful computations

What is known of a computation in several steps that ended without a failure: every step did, and
what one step keeps, all of them keep.
-/

namespace RecordGraph

variable {ε α β : Type}

theorem bind_ok_iff {x : Except ε α} {f : α → Except ε β} {b : β} :
    (x >>= f) = .ok b ↔ ∃ a, x = .ok a ∧ f a = .ok b := by
  cases x with
  | error e => exact ⟨fun h => (nomatch h), fun ⟨_, h, _⟩ => (nomatch h)⟩
  | ok a => exact ⟨fun h => ⟨a, rfl, h⟩, fun ⟨_, ha, h⟩ => by cases ha; exact h⟩

theorem pure_ok_iff {a b : α} : (pure a : Except ε α) = .ok b ↔ a = b :=
  ⟨fun h => by cases h; rfl, fun h => by rw [h]; rfl⟩

theorem throw_ok_iff {e : ε} {b : α} : (throw e : Except ε α) = .ok b ↔ False :=
  ⟨fun h => (nomatch h), False.elim⟩

theorem map_ok_iff {x : Except ε α} {f : α → β} {b : β} :
    (f <$> x) = .ok b ↔ ∃ a, x = .ok a ∧ f a = b := by
  cases x with
  | error e => exact ⟨fun h => (nomatch h), fun ⟨_, h, _⟩ => (nomatch h)⟩
  | ok a => exact ⟨fun h => by cases h; exact ⟨a, rfl, rfl⟩, fun ⟨_, ha, h⟩ => by cases ha; rw [← h]; rfl⟩

theorem forall₂_partner {R : α → β → Prop} {xs : List α} {ys : List β} (h : List.Forall₂ R xs ys)
    {x : α} (hx : x ∈ xs) : ∃ y ∈ ys, R x y := by
  induction h with
  | nil => simp at hx
  | cons hr _ ih =>
      rcases List.mem_cons.mp hx with rfl | hx
      · exact ⟨_, by simp, hr⟩
      · obtain ⟨y, hy, hr⟩ := ih hx
        exact ⟨y, by simp [hy], hr⟩

/-- Partners of all items that have a property can be chosen item by item. -/
theorem exists_forall₂_iff {R : α → β → Prop} {P : β → Prop} {xs : List α} :
    (∃ ys, List.Forall₂ R xs ys ∧ ∀ y ∈ ys, P y) ↔ ∀ x ∈ xs, ∃ y, R x y ∧ P y := by
  constructor
  · rintro ⟨ys, hys, hall⟩ x hx
    obtain ⟨y, hy, hr⟩ := forall₂_partner hys hx
    exact ⟨y, hr, hall y hy⟩
  · intro h
    induction xs with
    | nil => exact ⟨[], .nil, by simp⟩
    | cons x xs ih =>
        obtain ⟨y, hr, hy⟩ := h x (by simp)
        obtain ⟨ys, hys, hall⟩ := ih fun x hx => h x (by simp [hx])
        exact ⟨y :: ys, .cons hr hys, by simpa using ⟨hy, hall⟩⟩

/-- A list that is worked out item by item. -/
theorem cons_ok_iff {x : Except ε α} {xs : Except ε (List α)} {bs : List α} :
    (do return (← x) :: (← xs)) = .ok bs ↔ ∃ a as, x = .ok a ∧ xs = .ok as ∧ bs = a :: as := by
  simp only [bind_ok_iff, pure_ok_iff]
  constructor
  · rintro ⟨a, ha, as, has, rfl⟩
    exact ⟨a, as, ha, has, rfl⟩
  · rintro ⟨a, as, ha, has, rfl⟩
    exact ⟨a, ha, as, has, rfl⟩

/-- What holds of the items to come and the state so far, and is kept by each step, holds of the
last state when no item is left. -/
theorem foldlM_ok_invariant {f : β → α → Except ε β} {I : List α → β → Prop} {items : List α}
    (keep : ∀ {item rest state next}, item ∈ items → I (item :: rest) state →
      f state item = .ok next → I rest next)
    {start last : β} (hs : I items start) (h : items.foldlM f start = .ok last) : I [] last := by
  induction items generalizing start with
  | nil =>
      have he : start = last := pure_ok_iff.mp h
      exact he ▸ hs
  | cons item rest ih =>
      rw [List.foldlM_cons, bind_ok_iff] at h
      obtain ⟨next, hn, hl⟩ := h
      exact ih (fun hm => keep (List.mem_cons_of_mem _ hm)) (keep (by simp) hs hn) hl

/-- What every step of a fold keeps holds of the last state. -/
theorem foldlM_ok_kept {f : β → α → Except ε β} {I : β → Prop} {items : List α}
    (keep : ∀ {item state next}, item ∈ items → I state → f state item = .ok next → I next)
    {start last : β} (hs : I start) (h : items.foldlM f start = .ok last) : I last :=
  foldlM_ok_invariant (I := fun _ state => I state) keep hs h

/-- Folds whose steps are the same on all items are the same. -/
theorem foldlM_congr {f g : β → α → Except ε β} {items : List α}
    (h : ∀ item ∈ items, ∀ state, f state item = g state item) (start : β) :
    items.foldlM f start = items.foldlM g start := by
  induction items generalizing start with
  | nil => rfl
  | cons item rest ih =>
      rw [List.foldlM_cons, List.foldlM_cons, h item List.mem_cons_self]
      exact congrArg _ (funext (ih fun other hin => h other (List.mem_cons_of_mem _ hin)))

/-- A loop that checks every item and ended without a failure. -/
theorem forIn_ok_forall {f : α → Unit → Except ε (ForInStep Unit)} {P : α → Prop} {items : List α}
    (step : ∀ {item next}, f item () = .ok next → next = .yield () ∧ P item) {last : Unit}
    (h : forIn items () f = .ok last) : ∀ item ∈ items, P item := by
  induction items with
  | nil => simp
  | cons item rest ih =>
      rw [List.forIn_cons, bind_ok_iff] at h
      obtain ⟨next, hnext, h⟩ := h
      obtain ⟨rfl, hitem⟩ := step hnext
      exact List.forall_mem_cons.mpr ⟨hitem, ih h⟩

/-- A loop all of whose steps succeed, as long as an invariant holds that they keep. -/
theorem foldlM_succeeds {f : β → α → Except ε β} {I : β → Prop} {items : List α}
    (step : ∀ item ∈ items, ∀ state, I state → ∃ next, f state item = .ok next ∧ I next) {start : β} (hs : I start) :
    ∃ last, items.foldlM f start = .ok last ∧ I last := by
  induction items generalizing start with
  | nil => exact ⟨start, rfl, hs⟩
  | cons item items ih =>
      obtain ⟨next, hnext, hkept⟩ := step item List.mem_cons_self start hs
      obtain ⟨last, hlast, h⟩ := ih (fun item hi => step item (List.mem_cons_of_mem _ hi)) hkept
      exact ⟨last, bind_ok_iff.mpr ⟨next, hnext, hlast⟩, h⟩

/-- Lists are mapped item by item. -/
theorem mapM_ok_iff {f : α → Except ε β} {items : List α} {results : List β} :
    items.mapM f = .ok results ↔ List.Forall₂ (fun a b => f a = .ok b) items results := by
  induction items generalizing results with
  | nil =>
      rw [List.mapM_nil, pure_ok_iff, List.forall₂_nil_left_iff]
      exact eq_comm
  | cons a items ih => rw [List.mapM_cons, cons_ok_iff, List.forall₂_cons_left_iff]; simp only [ih]

theorem mapM_ok_forall₂ {f : α → Except ε β} {items : List α} {results : List β}
    (h : items.mapM f = .ok results) : List.Forall₂ (fun a b => f a = .ok b) items results :=
  mapM_ok_iff.mp h

/-- What is left of a list that is mapped in part comes from its items. -/
theorem mem_of_filterMapM_ok {f : α → Except ε (Option β)} {items : List α} {results : List β}
    (h : items.filterMapM f = .ok results) {b : β} (hb : b ∈ results) :
    ∃ a ∈ items, f a = .ok (some b) := by
  induction items generalizing results with
  | nil =>
      rw [List.filterMapM_nil, pure_ok_iff] at h
      subst h; cases hb
  | cons a items ih =>
      rw [List.filterMapM_cons, bind_ok_iff] at h
      obtain ⟨_ | b', ha, h⟩ := h
      · obtain ⟨a', hm, hf⟩ := ih h hb
        exact ⟨a', List.mem_cons_of_mem _ hm, hf⟩
      · simp only [bind_ok_iff, pure_ok_iff] at h
        obtain ⟨bs, hbs, rfl⟩ := h
        rcases List.mem_cons.mp hb with rfl | hb
        · exact ⟨a, by simp, ha⟩
        · obtain ⟨a', hm, hf⟩ := ih hbs hb
          exact ⟨a', List.mem_cons_of_mem _ hm, hf⟩

/-- Every item of a list that is mapped in part was worked out, and is there if it came to something. -/
theorem filterMapM_ok_mem {f : α → Except ε (Option β)} {items : List α} {results : List β}
    (h : items.filterMapM f = .ok results) {a : α} (ha : a ∈ items) :
    ∃ o, f a = .ok o ∧ ∀ b, o = some b → b ∈ results := by
  induction items generalizing results with
  | nil => cases ha
  | cons a' items ih =>
      rw [List.filterMapM_cons, bind_ok_iff] at h
      obtain ⟨_ | b', hf, h⟩ := h
      · rcases List.mem_cons.mp ha with rfl | ha
        · exact ⟨none, hf, nofun⟩
        · exact ih h ha
      · simp only [bind_ok_iff, pure_ok_iff] at h
        obtain ⟨bs, hbs, rfl⟩ := h
        rcases List.mem_cons.mp ha with rfl | ha
        · exact ⟨some b', hf, fun b hb => by cases hb; simp⟩
        · obtain ⟨o, ho, hin⟩ := ih hbs ha
          exact ⟨o, ho, fun b hb => List.mem_cons_of_mem _ (hin b hb)⟩

theorem mem_of_mapM_ok {f : α → Except ε β} {items : List α} {results : List β}
    (h : items.mapM f = .ok results) {b : β} (hb : b ∈ results) : ∃ a ∈ items, f a = .ok b := by
  exact forall₂_partner (mapM_ok_forall₂ h).flip hb

end RecordGraph
