import Sparo.Misc.SortedList
import Mathlib.Data.List.Basic

/-!
# Binary heaps in a list

The children of position `i` are at `2 * i + 1` and `2 * i + 2`. A heap is repaired by moving a hole
through it: `HeapAround` says that everything is in order but for what stands in the hole, and an
element that fits between the hole's parent and its children makes a heap again. The relation `r` is
any strict weak order; no element of a heap is above its parent.
-/

namespace BinaryHeap

variable {β : Type*} {r : β → β → Prop} {xs ys : List β} {h i j : Nat} {a b c e p x : β}

/-- The position of the parent. -/
def parent (i : Nat) : Nat := (i - 1) / 2

theorem parent_lt (hi : 0 < i) : parent i < i := by
  unfold parent
  omega

theorem parent_ne (hi : 0 < i) : parent i ≠ i := Nat.ne_of_lt (parent_lt hi)

/-- A position has two children. -/
theorem parent_eq_iff (hi : 0 < i) : parent i = h ↔ i = 2 * h + 1 ∨ i = 2 * h + 2 := by
  unfold parent
  omega

/-- No element is above its parent. -/
def IsHeap (r : β → β → Prop) (xs : List β) : Prop :=
  ∀ (i : Nat) x p, 0 < i → xs[i]? = some x → xs[parent i]? = some p → ¬r p x

/-- Whether a list is a heap is decided by looking at every position. -/
instance decidableIsHeap [DecidableRel r] (xs : List β) : Decidable (IsHeap r xs) :=
  decidable_of_iff
    (∀ i < xs.length, 0 < i → ∀ x ∈ xs[i]?, ∀ p ∈ xs[parent i]?, ¬r p x)
    ⟨fun hs i x p hi hx hp => hs i (List.getElem?_eq_some_iff.mp hx).1 hi x hx p hp,
      fun hs i _ hi x hx p hp => hs i x p hi hx hp⟩

/-- The pairs that do not touch the hole are in order, and the children of the hole are not above
its parent. What stands in the hole does not matter. -/
structure HeapAround (r : β → β → Prop) (xs : List β) (h : Nat) : Prop where
  pairs : ∀ (i : Nat) x p, 0 < i → i ≠ h → parent i ≠ h → xs[i]? = some x →
    xs[parent i]? = some p → ¬r p x
  bridge : ∀ (i : Nat) x p, 0 < h → 0 < i → parent i = h → xs[i]? = some x →
    xs[parent h]? = some p → ¬r p x

/-- The children of a position are not above `e`. -/
def AboveChildren (r : β → β → Prop) (xs : List β) (h : Nat) (e : β) : Prop :=
  ∀ (i : Nat) x, 0 < i → parent i = h → xs[i]? = some x → ¬r e x

/-- The parent of a position is not below `e`. -/
def BelowParent (r : β → β → Prop) (xs : List β) (h : Nat) (e : β) : Prop :=
  ∀ p, 0 < h → xs[parent h]? = some p → ¬r p e

theorem aboveChildren_of (hleft : ∀ x, xs[2 * h + 1]? = some x → ¬r e x)
    (hright : ∀ x, xs[2 * h + 2]? = some x → ¬r e x) : AboveChildren r xs h e := by
  intro i x hi hparent hx
  rcases (parent_eq_iff hi).mp hparent with rfl | rfl
  · exact hleft x hx
  · exact hright x hx

/-- The list after `x` has moved to the old hole `h`, with `e` in the new one. -/
def moved (xs : List β) (h new : Nat) (x e : β) : List β := (xs.set h x).set new e

/-! ## Look-ups -/

theorem moved_of_ne (hh : i ≠ h) (hnew : i ≠ j) : (moved xs h j x e)[i]? = xs[i]? := by
  rw [moved, List.getElem?_set_ne hnew.symm, List.getElem?_set_ne hh.symm]

theorem moved_old (hne : h ≠ j) (hlt : h < xs.length) : (moved xs h j x e)[h]? = some x := by
  rw [moved, List.getElem?_set_ne hne.symm, List.getElem?_set_self hlt]

theorem moved_new (hlt : j < xs.length) : (moved xs h j x e)[j]? = some e := by
  rw [moved, List.getElem?_set_self (by rwa [List.length_set])]

theorem moved_append (hh : h < xs.length) (hj : j < xs.length) :
    moved (xs ++ ys) h j x e = moved xs h j x e ++ ys := by
  rw [moved, List.set_append_left _ _ hh, List.set_append_left _ _ (by rwa [List.length_set]),
    moved]

/-- A move exchanges two elements. -/
theorem moved_perm (he : xs[h]? = some e) (hx : xs[j]? = some x) : (moved xs h j x e).Perm xs := by
  obtain ⟨hh, rfl⟩ := List.getElem?_eq_some_iff.mp he
  obtain ⟨hj, rfl⟩ := List.getElem?_eq_some_iff.mp hx
  exact List.set_set_perm hh hj

/-- An element of the list after a move that does not stand in the new hole is the one that moved
or was there before. -/
theorem moved_cases (hi : (moved xs h j x e)[i]? = some a) (hnew : i ≠ j) :
    i = h ∧ x = a ∨ i ≠ h ∧ xs[i]? = some a := by
  by_cases hh : i = h
  · subst hh
    have hlt : i < xs.length := by
      simpa [moved] using (List.getElem?_eq_some_iff.mp hi).1
    rw [moved_old hnew hlt] at hi
    exact .inl ⟨rfl, Option.some.inj hi⟩
  · rw [moved_of_ne hh hnew] at hi
    exact .inr ⟨hh, hi⟩

/-! ## Holes -/

/-- Only what stands around the hole matters. -/
theorem HeapAround.of_agree (hs : HeapAround r xs h)
    (hagree : ∀ (i : Nat) y, i ≠ h → ys[i]? = some y → xs[i]? = some y) : HeapAround r ys h where
  pairs i x p hi hne hparent hx hp :=
    hs.pairs i x p hi hne hparent (hagree i x hne hx) (hagree _ p hparent hp)
  bridge i x p hh hi hparent hx hp := by
    have hchild : i ≠ h := by
      rintro rfl
      exact absurd hparent (parent_ne hi)
    exact hs.bridge i x p hh hi hparent (hagree i x hchild hx)
      (hagree _ p (parent_ne hh) hp)

/-- An element that fits in the hole makes a heap. -/
theorem HeapAround.isHeap (hs : HeapAround r xs h) (he : xs[h]? = some e)
    (habove : AboveChildren r xs h e) (hbelow : BelowParent r xs h e) : IsHeap r xs := by
  intro i x p hi hx hp
  by_cases hih : i = h
  · subst hih
    obtain rfl : e = x := Option.some.inj (he.symm.trans hx)
    exact hbelow p hi hp
  · by_cases hparent : parent i = h
    · rw [hparent, he, Option.some.injEq] at hp
      exact hp ▸ habove i x hi hparent hx
    · exact hs.pairs i x p hi hih hparent hx hp

/-- The greater child moves into the hole. -/
theorem HeapAround.down (hs : HeapAround r xs h) (hj : 0 < j) (hchild : parent j = h)
    (hx : xs[j]? = some x) (hlt : h < xs.length) (hgreatest : AboveChildren r xs h x) :
    HeapAround r (moved xs h j x e) j := by
  have hhj : h < j := hchild ▸ parent_lt hj
  refine ⟨fun i y q hi hne hparent hy hq => ?_, fun i y q _ hi hparent hy hq => ?_⟩
  · rcases moved_cases hq hparent with ⟨hpi, rfl⟩ | ⟨hpi, hq'⟩
    · rcases moved_cases hy hne with ⟨rfl, -⟩ | ⟨-, hy'⟩
      · exact absurd hpi (parent_ne hi)
      · exact hgreatest i y hi hpi hy'
    · rcases moved_cases hy hne with ⟨rfl, rfl⟩ | ⟨hih, hy'⟩
      · exact hs.bridge j x q hi hj hchild hx hq'
      · exact hs.pairs i y q hi hih hpi hy' hq'
  · have hji := hparent ▸ parent_lt hi
    rw [hchild, moved_old (Nat.ne_of_lt hhj) hlt, Option.some.injEq] at hq
    subst hq
    rcases moved_cases hy (Nat.ne_of_gt hji) with ⟨rfl, -⟩ | ⟨hih, hy⟩
    · omega
    · exact hs.pairs i y x hi hih (by omega) hy (hparent ▸ hx)

section

variable [IsStrictWeakOrder β r]

/-- A hole may be made anywhere in a heap. -/
theorem IsHeap.around (hs : IsHeap r xs) (h : Nat) : HeapAround r xs h where
  pairs i x p hi _ _ hx hp := hs i x p hi hx hp
  bridge i x p hh hi hparent hx hp := by
    have hlt : h < xs.length := by
      have hix := (List.getElem?_eq_some_iff.mp hx).1
      have := hparent ▸ parent_lt hi
      omega
    obtain ⟨y, hy⟩ : ∃ y, xs[h]? = some y := ⟨xs[h], List.getElem?_eq_getElem hlt⟩
    exact SortedList.not_trans (hs h y p hh hy hp) (hs i x y hi hx (hparent ▸ hy))

/-- The parent of the hole moves into it, for an element above the parent. -/
theorem HeapAround.up (hs : HeapAround r xs h) (hh : 0 < h) (hlt : h < xs.length)
    (hp : xs[parent h]? = some p) (hpe : r p e) :
    HeapAround r (moved xs h (parent h) p e) (parent h) ∧
      AboveChildren r (moved xs h (parent h) p e) (parent h) e := by
  have hph : parent h < h := parent_lt hh
  -- what stood beside the hole is not above the hole's parent
  have hsibling : ∀ (i : Nat) x, 0 < i → parent i = parent h →
      (moved xs h (parent h) p e)[i]? = some x → ¬r p x := by
    intro i x hi hparent hx
    have hne : i ≠ parent h := by
      rintro rfl
      exact absurd hparent (parent_ne hi)
    rcases moved_cases hx hne with ⟨-, rfl⟩ | ⟨hih, hx⟩
    · exact irrefl_of r p
    · exact hs.pairs i x p hi hih (by omega) hx (hparent ▸ hp)
  refine ⟨⟨fun i x q hi hne hparent hx hq => ?_, fun i x q hh' hi hparent hx hq => ?_⟩, ?_⟩
  · rcases moved_cases hx hne with ⟨rfl, rfl⟩ | ⟨hih, hx⟩
    · exact absurd rfl hparent
    · rcases moved_cases hq hparent with ⟨hpi, rfl⟩ | ⟨hpi, hq⟩
      · exact hs.bridge i x p hh hi hpi hx hp
      · exact hs.pairs i x q hi hih hpi hx hq
  · have hpp := parent_lt hh'
    rcases moved_cases hq (parent_ne hh') with ⟨heq, -⟩ | ⟨-, hq⟩
    · omega
    · exact SortedList.not_trans (hs.pairs (parent h) p q hh' (parent_ne hh) (by omega) hp hq)
        (hsibling i x hi hparent hx)
  · intro i x hi hparent hx hex
    exact hsibling i x hi hparent hx (trans_of r hpe hex)

/-- An element that the greater child is above fits under it. -/
theorem belowParent_moved (hj : 0 < j) (hchild : parent j = h) (hlt : h < xs.length)
    (hex : r e x) : BelowParent r (moved xs h j x e) j e := by
  intro p _ hp
  have hhj : h < j := hchild ▸ parent_lt hj
  rw [hchild, moved_old (Nat.ne_of_lt hhj) hlt, Option.some.injEq] at hp
  exact hp ▸ asymm_of r hex

/-- An element that is not below the greater child fits over both children. -/
theorem AboveChildren.of_not (hgreatest : AboveChildren r xs h x) (hex : ¬r e x) :
    AboveChildren r xs h e :=
  fun i y hi hparent hy => SortedList.not_trans hex (hgreatest i y hi hparent hy)

/-- The element at the top of a heap is a greatest one. -/
theorem IsHeap.top (hs : IsHeap r xs) (ha : xs[0]? = some a) (hx : xs[i]? = some x) : ¬r a x := by
  induction i using Nat.strongRecOn generalizing x with
  | ind i ih =>
    by_cases hi : i = 0
    · subst hi
      obtain rfl : a = x := Option.some.inj (ha.symm.trans hx)
      exact irrefl_of r a
    · have hlt := parent_lt (Nat.pos_of_ne_zero hi)
      have hlen := (List.getElem?_eq_some_iff.mp hx).1
      have hplt : parent i < xs.length := by omega
      obtain ⟨p, hp⟩ : ∃ p, xs[parent i]? = some p :=
        ⟨xs[parent i], List.getElem?_eq_getElem hplt⟩
      exact SortedList.not_trans (ih (parent i) hlt hp) (hs i x p (by omega) hx hp)

end

/-- A list in descending order is a heap. -/
theorem isHeap_of_pairwise (hs : xs.Pairwise fun a b => ¬r a b) : IsHeap r xs := by
  intro i x p hi hx hp
  obtain ⟨hlt, rfl⟩ := List.getElem?_eq_some_iff.mp hx
  obtain ⟨hplt, rfl⟩ := List.getElem?_eq_some_iff.mp hp
  exact List.pairwise_iff_getElem.mp hs _ _ hplt hlt (parent_lt hi)

end BinaryHeap
