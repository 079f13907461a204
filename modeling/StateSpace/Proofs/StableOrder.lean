import StateSpace.Proofs.Queueing

/-!
# What a stable sort leaves

One item stands ahead of another when its key is smaller, or when their keys are equal and it came
before the other. Putting an item behind all whose keys are not greater keeps a list in this order,
provided that the item came last. A list in this order is known by its members: so it is the stable
sort of them, however it was made.
-/
namespace StateSpace

section Ahead

variable {α : Type} {key : α → Int} {before : α → α → Prop} {a b c x : α} {xs ys : List α}

/-- The smaller key first, and of equal keys the item that came before. -/
def Ahead (key : α → Int) (before : α → α → Prop) (a b : α) : Prop :=
  key a < key b ∨ key a = key b ∧ before a b

theorem Ahead.key_le (hab : Ahead key before a b) : key a ≤ key b := by
  rcases hab with hlt | ⟨heq, -⟩
  · exact hlt.le
  · exact heq.le

theorem Ahead.trans (htrans : ∀ a b c, before a b → before b c → before a c)
    (hab : Ahead key before a b) (hbc : Ahead key before b c) : Ahead key before a c := by
  rcases hab with hlt | ⟨heq, hab⟩
  · exact Or.inl (hlt.trans_le hbc.key_le)
  · rcases hbc with hlt | ⟨heq', hbc⟩
    · exact Or.inl (heq ▸ hlt)
    · exact Or.inr ⟨heq.trans heq', htrans a b c hab hbc⟩

theorem Ahead.asymm (hasymm : ∀ a b, before a b → ¬before b a) (hab : Ahead key before a b) :
    ¬Ahead key before b a := by
  rintro (hlt | ⟨heq, hba⟩)
  · exact absurd hab.key_le (not_le.mpr hlt)
  · rcases hab with hlt | ⟨-, hab⟩
    · exact hlt.ne heq.symm
    · exact hasymm a b hab hba

theorem Ahead.imp {later : α → α → Prop} (himp : before a b → later a b)
    (hab : Ahead key before a b) : Ahead key later a b :=
  hab.imp_right (And.imp_right himp)

theorem pairwise_of_key_eq (hxs : xs.Pairwise before) :
    xs.Pairwise fun a b => key a = key b → before a b := by
  refine hxs.imp ?_
  exact fun hab _ => hab

theorem Ahead.of_key_eq (hab : Ahead key before a b) (heq : key a = key b) : before a b := by
  rcases hab with hlt | ⟨-, hab⟩
  · exact absurd heq hlt.ne
  · exact hab

theorem pairwise_ahead_insertBehind (hxs : xs.Pairwise (Ahead key before))
    (hx : ∀ y ∈ xs, key y = key x → before y x) :
    (insertBehind (belowBy key) x xs).Pairwise (Ahead key before) := by
  have hparts := hxs
  rw [← List.takeWhile_append_dropWhile (p := fun y => !belowBy key x y) (l := xs),
    List.pairwise_append] at hparts
  obtain ⟨hfront, hback, hacross⟩ := hparts
  rw [insertBehind_eq_append, List.pairwise_append, List.pairwise_cons]
  refine ⟨hfront, ⟨fun y hy => ?_, hback⟩, fun y hy z hz => ?_⟩
  · exact Or.inl (lt_of_mem_dropWhile (hxs.imp Ahead.key_le) y hy)
  · rcases List.mem_cons.mp hz with rfl | hz
    · rcases (le_of_mem_takeWhile y hy).lt_or_eq with hlt | heq
      · exact Or.inl hlt
      · exact Or.inr ⟨heq, hx y ((List.takeWhile_sublist _).subset hy) heq⟩
    · exact hacross y hy z hz

/-- Items that came one after another, and after all that stand already, are put in order. -/
theorem pairwise_ahead_foldl (hxs : xs.Pairwise (Ahead key before))
    (hys : ys.Pairwise fun a b => key a = key b → before a b)
    (hold : ∀ x ∈ xs, ∀ y ∈ ys, key x = key y → before x y) :
    (ys.foldl (fun sorted y => insertBehind (belowBy key) y sorted) xs).Pairwise
      (Ahead key before) := by
  induction ys generalizing xs with
  | nil => exact hxs
  | cons y ys ih =>
      obtain ⟨hy, hys⟩ := List.pairwise_cons.mp hys
      have hfirst : ∀ x ∈ xs, key x = key y → before x y :=
        fun x hx => hold x hx y List.mem_cons_self
      refine ih (pairwise_ahead_insertBehind hxs hfirst) hys fun x hx z hz => ?_
      rcases List.mem_cons.mp ((insertBehind_perm _ y xs).mem_iff.mp hx) with rfl | hx
      · exact hy z hz
      · exact hold x hx z (List.mem_cons_of_mem y hz)

theorem pairwise_ahead_stableSort (hxs : xs.Pairwise fun a b => key a = key b → before a b) :
    (stableSort (belowBy key) xs).Pairwise (Ahead key before) :=
  pairwise_ahead_foldl List.Pairwise.nil hxs (by simp)

/-- A list in order is the stable sort of its members in the order in which they came. -/
theorem eq_stableSort_of_pairwise_ahead (hasymm : ∀ a b, before a b → ¬before b a)
    (hxs : xs.Pairwise (Ahead key before))
    (hys : ys.Pairwise fun a b => key a = key b → before a b) (hperm : xs.Perm ys) :
    xs = stableSort (belowBy key) ys := by
  refine List.Perm.eq_of_pairwise (fun a b _ _ hab hba => ?_) hxs (pairwise_ahead_stableSort hys)
    (hperm.trans (stableSort_perm _ ys).symm)
  exact absurd hba (hab.asymm hasymm)

end Ahead

end StateSpace
