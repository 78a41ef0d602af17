import Mathlib.Data.List.Sort
import Mathlib.Data.List.DropRight
import Mathlib.Data.List.Infix

/-!
# Lists in strictly descending order of a key

A list is *descending* for a key `f` into a linear order when its keys strictly decrease. Such a
list is determined by its elements, so sorting any arrangement of them gives it back
(`Descending.sort_eq`), and it splits at each of its elements: those with a key at most `f a` are
`a` and what follows it, those with a key at least `f a` are `a` and what precedes it
(`IsDescending.filter_le`, `IsDescending.filter_ge`).

## Main definitions

* `Descending.IsDescending`, `Descending.sort`.

## Main results

* `Descending.sort_eq`, `Descending.isDescending_sort`, `Descending.exists_sort_eq_cons`.
* `Descending.IsDescending.filter_le`, `Descending.IsDescending.filter_ge`,
  `Descending.IsDescending.filter_lt`, `Descending.IsDescending.filter_gt`.
* `Descending.IsDescending.mem_of_between`.
* `Descending.IsDescending.append`, `Descending.IsDescending.prepend`.
* `Descending.map_key_sort`, `Descending.filter_le_of_alone`, `Descending.filter_le_of_not_alone`,
  `Descending.mem_tail_sort`: lists in which keys may be equal.
-/

namespace Descending

variable {α β τ : Type*} [LinearOrder τ] (f : α → τ)

/-- The keys of the list strictly decrease. -/
def IsDescending (l : List α) : Prop := l.Pairwise fun a b => f b < f a

/-- The list sorted by decreasing key, elements of equal key in their given order. -/
def sort (l : List α) : List α := l.insertionSort fun a b => f b ≤ f a

theorem sort_perm (l : List α) : (sort f l).Perm l := List.perm_insertionSort _ l

@[simp] theorem mem_sort {l : List α} {a : α} : a ∈ sort f l ↔ a ∈ l := (sort_perm f l).mem_iff

@[simp] theorem length_sort (l : List α) : (sort f l).length = l.length := (sort_perm f l).length_eq

variable {f}

/-- A list whose keys do not increase splits at an element before which none has its key: not above
it is the rest. -/
theorem filter_le_of_alone {xs ys : List α} {a : α}
    (h : (xs ++ a :: ys).Pairwise fun a b => f b ≤ f a) (halone : ∀ x ∈ xs, f x ≠ f a) :
    (xs ++ a :: ys).filter (fun x => f x ≤ f a) = a :: ys := by
  obtain ⟨-, hay, hxa⟩ := List.pairwise_append.mp h
  have hxs : xs.filter (fun x => f x ≤ f a) = [] := by
    refine List.filter_eq_nil_iff.mpr fun x hx => ?_
    simpa using lt_of_le_of_ne (hxa x hx a List.mem_cons_self) (halone x hx).symm
  have hys : (a :: ys).filter (fun x => f x ≤ f a) = a :: ys := by
    refine List.filter_eq_self.mpr fun y hy => ?_
    rcases List.mem_cons.mp hy with rfl | hy
    · simp
    · simpa using (List.pairwise_cons.mp hay).1 y hy
  rw [List.filter_append, hxs, hys, List.nil_append]

namespace IsDescending

theorem nodup {l : List α} (h : IsDescending f l) : l.Nodup :=
  h.imp fun hab hne => absurd (congrArg f hne) hab.ne'

theorem sublist {l l' : List α} (h : IsDescending f l) (hl : l'.Sublist l) : IsDescending f l' :=
  List.Pairwise.sublist hl h

theorem keys_nodup {l : List α} (h : IsDescending f l) : (l.map f).Nodup :=
  List.Pairwise.map f (fun _ _ hab => hab.ne') h

theorem eq_of_key_eq {l : List α} (h : IsDescending f l) {a b : α} (ha : a ∈ l) (hb : b ∈ l)
    (hab : f a = f b) : a = b :=
  List.inj_on_of_nodup_map h.keys_nodup ha hb hab

/-- A descending list splits at each of its elements: not above it is the rest. -/
theorem filter_le {xs ys : List α} {a : α} (h : IsDescending f (xs ++ a :: ys)) :
    (xs ++ a :: ys).filter (fun x => f x ≤ f a) = a :: ys :=
  filter_le_of_alone (h.imp fun hab => hab.le) fun x hx =>
    ((List.pairwise_append.mp h).2.2 x hx a List.mem_cons_self).ne'

/-- A descending list splits at each of its elements: not below it is what comes before. -/
theorem filter_ge {xs ys : List α} {a : α} (h : IsDescending f (xs ++ a :: ys)) :
    (xs ++ a :: ys).filter (fun x => f a ≤ f x) = xs ++ [a] := by
  obtain ⟨-, hay, hxa⟩ := List.pairwise_append.mp h
  have hxs : xs.filter (fun x => f a ≤ f x) = xs := by
    refine List.filter_eq_self.mpr fun x hx => ?_
    simpa using (hxa x hx a List.mem_cons_self).le
  have hys : ys.filter (fun x => f a ≤ f x) = [] := by
    refine List.filter_eq_nil_iff.mpr fun y hy => ?_
    simpa using (List.pairwise_cons.mp hay).1 y hy
  rw [List.filter_append, hxs, List.filter_cons_of_pos (by simp), hys]

/-- Below an element of a descending list is what comes after it. -/
theorem filter_lt {xs ys : List α} {a : α} (h : IsDescending f (xs ++ a :: ys)) :
    (xs ++ a :: ys).filter (fun x => f x < f a) = ys := by
  have hne : ∀ x ∈ ys, f x < f a := (List.pairwise_cons.mp (List.pairwise_append.mp h).2.1).1
  calc (xs ++ a :: ys).filter (fun x => f x < f a)
      = ((xs ++ a :: ys).filter fun x => f x ≤ f a).filter fun x => f x < f a := by
        rw [List.filter_filter]
        exact List.filter_congr fun x _ => by simpa using fun hx => hx.le
    _ = ys := by
        rw [h.filter_le, List.filter_cons_of_neg (by simp)]
        exact List.filter_eq_self.mpr fun x hx => by simpa using hne x hx

/-- Above an element of a descending list is what comes before it. -/
theorem filter_gt {xs ys : List α} {a : α} (h : IsDescending f (xs ++ a :: ys)) :
    (xs ++ a :: ys).filter (fun x => f a < f x) = xs := by
  have hne : ∀ x ∈ xs, f a < f x := fun x hx =>
    (List.pairwise_append.mp h).2.2 x hx a List.mem_cons_self
  calc (xs ++ a :: ys).filter (fun x => f a < f x)
      = ((xs ++ a :: ys).filter fun x => f a ≤ f x).filter fun x => f a < f x := by
        rw [List.filter_filter]
        exact List.filter_congr fun x _ => by simpa using fun hx => hx.le
    _ = xs := by
        rw [h.filter_ge, List.filter_append, List.filter_cons_of_neg (by simp), List.filter_nil,
          List.append_nil]
        exact List.filter_eq_self.mpr fun x hx => by simpa using hne x hx

/-- What lies between two elements of a part of a descending list belongs to that part. -/
theorem mem_of_between {xs l ys : List α} (h : IsDescending f (xs ++ l ++ ys)) {a b x : α}
    (ha : a ∈ l) (hb : b ∈ l) (hx : x ∈ xs ++ l ++ ys) (hbx : f b ≤ f x) (hxa : f x ≤ f a) :
    x ∈ l := by
  obtain ⟨hl, -, hly⟩ := List.pairwise_append.mp h
  obtain ⟨-, -, hxl⟩ := List.pairwise_append.mp hl
  rcases List.mem_append.mp hx with hx | hx
  · rcases List.mem_append.mp hx with hx | hx
    · exact absurd (hxl x hx a ha) hxa.not_gt
    · exact hx
  · exact absurd (hly b (List.mem_append_right xs hb) x hx) hbx.not_gt

/-- Elements below the last one continue a descending list. -/
theorem append {xs ys : List α} {a : α} (hx : IsDescending f (xs ++ [a]))
    (hy : IsDescending f ys) (hlt : ∀ y ∈ ys, f y < f a) : IsDescending f (xs ++ [a] ++ ys) := by
  refine List.pairwise_append.mpr ⟨hx, hy, fun x hx' y hy' => ?_⟩
  rcases List.mem_append.mp hx' with hx' | hx'
  · exact (hlt y hy').trans ((List.pairwise_append.mp hx).2.2 x hx' a (List.mem_singleton_self a))
  · exact List.mem_singleton.mp hx' ▸ hlt y hy'

/-- Elements above the first one precede a descending list. -/
theorem prepend {xs ys : List α} {a : α} (hx : IsDescending f xs)
    (hy : IsDescending f (a :: ys)) (hlt : ∀ x ∈ xs, f a < f x) :
    IsDescending f (xs ++ a :: ys) := by
  refine List.pairwise_append.mpr ⟨hx, hy, fun x hx' y hy' => ?_⟩
  rcases List.mem_cons.mp hy' with rfl | hy'
  · exact hlt x hx'
  · exact ((List.pairwise_cons.mp hy).1 y hy').trans (hlt x hx')

theorem cons {a : α} {l : List α} (h : IsDescending f l) (ha : ∀ x ∈ l, f x < f a) :
    IsDescending f (a :: l) :=
  List.pairwise_cons.mpr ⟨ha, h⟩

/-- The last element is the least. -/
theorem getLast_le {l : List α} (h : IsDescending f l) (hne : l ≠ []) {a : α} (ha : a ∈ l) :
    f (l.getLast hne) ≤ f a := by
  rw [← List.dropLast_append_getLast hne] at h ha
  rcases List.mem_append.mp ha with ha | ha
  · exact ((List.pairwise_append.mp h).2.2 a ha _ (List.mem_singleton_self _)).le
  · exact (List.mem_singleton.mp ha ▸ le_rfl)

/-- No element is above the first one. -/
theorem exists_head?_ge {l : List α} (h : IsDescending f l) {a : α} (ha : a ∈ l) :
    ∃ first ∈ l.head?, f a ≤ f first := by
  cases l with
  | nil => cases ha
  | cons first rest =>
    refine ⟨first, rfl, ?_⟩
    rcases List.mem_cons.mp ha with rfl | ha
    · exact le_rfl
    · exact ((List.pairwise_cons.mp h).1 a ha).le

/-- No element is below the last one. -/
theorem exists_getLast?_le {l : List α} (h : IsDescending f l) {a : α} (ha : a ∈ l) :
    ∃ last ∈ l.getLast?, f last ≤ f a :=
  have hne := List.ne_nil_of_mem ha
  ⟨l.getLast hne, List.getLast?_eq_some_getLast hne, h.getLast_le hne ha⟩

/-- Every element of a descending list that is not below an element of its first `k` is itself
among its first `k`. -/
theorem mem_take {l : List α} (h : IsDescending f l) {k : ℕ} {a r : α} (ha : a ∈ l)
    (hr : r ∈ l.take k) (hra : f r ≤ f a) : a ∈ l.take k := by
  rw [← List.take_append_drop k l] at h ha
  rcases List.mem_append.mp ha with ha | ha
  · exact ha
  · exact absurd ((List.pairwise_append.mp h).2.2 r hr a ha) hra.not_gt

end IsDescending

/-! ### Sorting -/

theorem pairwise_sort (l : List α) : (sort f l).Pairwise fun a b => f b ≤ f a :=
  have : Std.Total fun a b : α => f b ≤ f a := ⟨fun a b => le_total (f b) (f a)⟩
  have : IsTrans α fun a b => f b ≤ f a := ⟨fun _ _ _ hab hbc => hbc.trans hab⟩
  List.pairwise_insertionSort _ l

/-- Any arrangement of the elements of a descending list is sorted to that list. -/
theorem sort_eq {l l' : List α} (h : IsDescending f l) (hp : l'.Perm l) : sort f l' = l := by
  have hperm : (sort f l').Perm l := (sort_perm f l').trans hp
  refine List.Perm.eq_of_pairwise ?_ (pairwise_sort l') (h.imp fun hab => hab.le) hperm
  intro a b ha hb hba hab
  exact h.eq_of_key_eq (hperm.mem_iff.mp ha) hb (le_antisymm hab hba)

/-- Sorting a list without two equal keys gives a descending list. -/
theorem isDescending_sort {l : List α} (h : (l.map f).Nodup) : IsDescending f (sort f l) := by
  have hne : (sort f l).Pairwise fun a b => f a ≠ f b :=
    List.pairwise_map.mp (((sort_perm f l).map f).nodup_iff.mpr h)
  exact (pairwise_sort l).imp₂ (fun a b hle hne => lt_of_le_of_ne hle hne.symm) hne

/-- An element above all others is sorted to the front. -/
theorem exists_sort_eq_cons {l l' : List α} {a : α} (hp : l'.Perm (a :: l))
    (h : ∀ x ∈ l, f x < f a) : ∃ rest, sort f l' = a :: rest ∧ rest.Perm l := by
  have hperm : (sort f l').Perm (a :: l) := (sort_perm f l').trans hp
  obtain ⟨b, rest, hsort⟩ := List.exists_cons_of_ne_nil (List.ne_nil_of_mem
    (hperm.mem_iff.mpr List.mem_cons_self))
  have hle := pairwise_sort (f := f) l'
  rw [hsort] at hperm hle
  have hab : b = a := by
    by_contra hne
    have hb : b ∈ l := List.mem_of_ne_of_mem hne (hperm.mem_iff.mp List.mem_cons_self)
    have ha : a ∈ rest := List.mem_of_ne_of_mem (Ne.symm hne)
      (hperm.mem_iff.mpr List.mem_cons_self)
    exact absurd (h b hb) ((List.pairwise_cons.mp hle).1 a ha).not_gt
  subst hab
  exact ⟨rest, hsort, hperm.cons_inv⟩

/-- Sorting commutes with a map that keeps the keys. -/
theorem map_sort {g : β → τ} (e : α → β) (he : ∀ a, g (e a) = f a) (l : List α) :
    (sort f l).map e = sort g (l.map e) :=
  List.map_insertionSort _ _ e l fun a _ b _ => by simp only [he]

/-- The first of two elements of equal key keeps the second from being sorted to the front. -/
theorem mem_tail_sort {l : List α} {a b : α} (hab : f a = f b) (h : [b, a].Sublist l) :
    a ∈ (sort f l).tail :=
  have hpair : [b, a].Sublist (sort f l) := List.pair_sublist_insertionSort hab.le h
  List.singleton_sublist.mp hpair.tail

/-! ### Lists with equal keys -/

section EqualKeys

variable {l xs ys : List α} {a b : α}

/-- Sorting an arrangement of a list whose keys do not increase gives its keys back. -/
theorem map_key_sort {l' : List α} (h : l.Pairwise fun a b => f b ≤ f a) (hp : l'.Perm l) :
    (sort f l').map f = l.map f := by
  have hsort : ((sort f l').map f).Pairwise fun x y => y ≤ x :=
    List.pairwise_map.mpr (pairwise_sort l')
  have hl : (l.map f).Pairwise fun x y => y ≤ x := List.pairwise_map.mpr h
  refine List.Perm.eq_of_pairwise ?_ hsort hl (((sort_perm f l').trans hp).map f)
  exact fun x y _ _ hyx hxy => le_antisymm hxy hyx

/-- Not above an element whose key another one has are two elements of that key first, and the
first of them comes no later than the element. -/
theorem filter_le_of_not_alone (h : (xs ++ ys).Pairwise fun a b => f b ≤ f a) (ha : a ∈ xs)
    (hb : b ∈ xs ++ ys) (hne : b ≠ a) (hba : f b = f a) :
    ∃ x ∈ xs, ∃ y rest, (xs ++ ys).filter (fun x => f x ≤ f a) = x :: y :: rest ∧
      f x = f a ∧ f y = f a := by
  have hle := h.filter fun x => f x ≤ f a
  have hmem_a : a ∈ (xs ++ ys).filter fun x => f x ≤ f a :=
    List.mem_filter.mpr ⟨List.mem_append_left _ ha, by simp⟩
  have hmem_b : b ∈ (xs ++ ys).filter fun x => f x ≤ f a :=
    List.mem_filter.mpr ⟨hb, by simp [hba]⟩
  have hkey : ∀ x ∈ (xs ++ ys).filter fun x => f x ≤ f a, f x ≤ f a := fun x hx => by
    simpa using (List.mem_filter.mp hx).2
  have hfirst : ∃ x rest, (xs ++ ys).filter (fun x => f x ≤ f a) = x :: rest ∧ x ∈ xs := by
    obtain ⟨x, rest, hx⟩ := List.exists_cons_of_ne_nil (List.ne_nil_of_mem
      (List.mem_filter.mpr ⟨ha, by simp⟩ : a ∈ xs.filter fun x => f x ≤ f a))
    refine ⟨x, rest ++ ys.filter _, by rw [List.filter_append, hx, List.cons_append], ?_⟩
    exact (List.mem_filter.mp (hx ▸ List.mem_cons_self)).1
  obtain ⟨x, rest, hx, hmem⟩ := hfirst
  rw [hx] at hle hmem_a hmem_b hkey
  have hxa : f x = f a := by
    refine le_antisymm (hkey x List.mem_cons_self) ?_
    rcases List.mem_cons.mp hmem_a with rfl | ha
    · exact le_rfl
    · exact (List.pairwise_cons.mp hle).1 a ha
  -- one of the two elements is not the first
  obtain ⟨c, hc, hca⟩ : ∃ c ∈ rest, f c = f a := by
    rcases List.mem_cons.mp hmem_a with rfl | ha
    · exact ⟨b, List.mem_of_ne_of_mem hne hmem_b, hba⟩
    · exact ⟨a, ha, rfl⟩
  obtain ⟨y, rest, rfl⟩ := List.exists_cons_of_ne_nil (List.ne_nil_of_mem hc)
  refine ⟨x, hmem, y, rest, hx, hxa, le_antisymm (hkey y (by simp)) ?_⟩
  rcases List.mem_cons.mp hc with rfl | hc
  · exact hca.ge
  · exact hca.ge.trans ((List.pairwise_cons.mp (List.pairwise_cons.mp hle).2).1 c hc)

end EqualKeys

end Descending
