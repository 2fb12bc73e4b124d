import Mathlib.Data.Finset.Card
import Mathlib.Data.Finset.SDiff
import Mathlib.Data.List.Nodup
import Mathlib.Data.List.Perm.Basic

/-!
# Ledgers of blocks

Owners hold lists of blocks, and the blocks of no owner wait in a free list.  A
ledger is exclusive when no block is in two of these places; it conserves its
blocks when, moreover, a set records exactly the blocks in use and nothing is lost.
The operations are the ones of an allocator: one free block goes to an owner, and
an owner gives back what it holds.
-/

namespace SpongeBob
namespace Foundation

variable {Owner Block : Type}

/-- No block has two owners, and no free block has one. -/
structure Exclusive (held : Owner -> List Block) (free : List Block) : Prop where
  distinct : forall o, (held o).Nodup
  apart : forall o o' b, b ∈ held o -> b ∈ held o' -> o = o'
  freeNodup : free.Nodup
  unowned : forall o b, b ∈ held o -> b ∉ free

/-- Every block is owned or free, and {lit}`used` is the set of the owned ones. -/
structure Conserves (held : Owner -> List Block) (free : List Block)
    (used : Finset Block) (all : Block -> Prop) : Prop extends Exclusive held free where
  owned : forall b, b ∈ used <-> exists o, b ∈ held o
  cover : forall b, b ∈ used ∨ b ∈ free <-> all b

variable {held : Owner -> List Block} {free : List Block}

theorem Exclusive.of_perm {free' : List Block} (h : Exclusive held free)
    (hperm : free.Perm free') : Exclusive held free' where
  distinct := h.distinct
  apart := h.apart
  freeNodup := hperm.nodup_iff.mp h.freeNodup
  unowned := fun o b hb hfree => h.unowned o b hb (hperm.mem_iff.mpr hfree)

variable {used : Finset Block} {all : Block -> Prop}

/-- All blocks are free and nobody holds one. -/
theorem Conserves.start (hheld : forall o, held o = []) (hfree : free.Nodup)
    (hall : forall b, b ∈ free <-> all b) : Conserves held free ∅ all where
  distinct := by
    intro o
    rw [hheld o]
    exact List.nodup_nil
  apart := by
    intro o o' b hb
    rw [hheld o] at hb
    cases hb
  freeNodup := hfree
  unowned := by
    intro o b hb
    rw [hheld o] at hb
    cases hb
  owned := by
    intro b
    simp [hheld]
  cover := by
    intro b
    simp [hall b]

theorem Conserves.of_perm {free' : List Block} (h : Conserves held free used all)
    (hperm : free.Perm free') : Conserves held free' used all where
  toExclusive := h.toExclusive.of_perm hperm
  owned := h.owned
  cover := fun b => by rw [← hperm.mem_iff, h.cover b]

theorem Conserves.card_take [DecidableEq Block] {b : Block}
    (h : Conserves held (b :: free) used all) :
    (insert b used).card = used.card + 1 := by
  apply Finset.card_insert_of_notMem
  intro hb
  rcases (h.owned b).mp hb with ⟨o, hheld⟩
  exact h.unowned o b hheld List.mem_cons_self

theorem Conserves.card_giveBack [DecidableEq Block]
    (h : Conserves held free used all) (o : Owner) :
    (used \ (held o).toFinset).card + (held o).length = used.card := by
  rw [← List.toFinset_card_of_nodup (h.distinct o)]
  apply Finset.card_sdiff_add_card_eq_card
  intro x hx
  exact (h.owned x).mpr ⟨o, List.mem_toFinset.mp hx⟩

variable [DecidableEq Owner]

/-!
## One block goes to an owner, an owner leaves
-/

theorem mem_update_append {o : Owner} {back : List Block} {o' : Owner} {b : Block} :
    b ∈ Function.update held o (held o ++ back) o' <->
      b ∈ held o' ∨ (o' = o ∧ b ∈ back) := by
  by_cases ho : o' = o
  · subst ho
    simp
  · simp [ho]

theorem mem_update_nil {o o' : Owner} {b : Block} :
    b ∈ Function.update held o [] o' <-> o' ≠ o ∧ b ∈ held o' := by
  by_cases ho : o' = o
  · subst ho
    simp
  · simp [ho]

/-- The first free block goes to an owner. -/
theorem Exclusive.take {b : Block} (h : Exclusive held (b :: free)) (o : Owner) :
    Exclusive (Function.update held o (held o ++ [b])) free := by
  have hfree := List.nodup_cons.mp h.freeNodup
  have hb : forall o', b ∉ held o' :=
    fun o' hmem => h.unowned o' b hmem List.mem_cons_self
  refine ⟨?_, ?_, hfree.right, ?_⟩
  · intro o'
    by_cases ho : o' = o
    · subst ho
      rw [Function.update_self, List.nodup_append]
      refine ⟨h.distinct o', List.nodup_singleton b, ?_⟩
      intro x hx y hy hxy
      rw [List.mem_singleton.mp hy] at hxy
      exact hb o' (hxy ▸ hx)
    · rw [Function.update_of_ne ho]
      exact h.distinct o'
  · intro o1 o2 x h1 h2
    rw [mem_update_append] at h1 h2
    rcases h1 with h1 | ⟨rfl, h1⟩
    · rcases h2 with h2 | ⟨rfl, h2⟩
      · exact h.apart o1 o2 x h1 h2
      · rw [List.mem_singleton.mp h2] at h1
        exact absurd h1 (hb o1)
    · rcases h2 with h2 | ⟨rfl, _⟩
      · rw [List.mem_singleton.mp h1] at h2
        exact absurd h2 (hb o2)
      · rfl
  · intro o' x hx
    rw [mem_update_append] at hx
    rcases hx with hx | ⟨_, hx⟩
    · exact fun hmem => h.unowned o' x hx (List.mem_cons_of_mem b hmem)
    · rw [List.mem_singleton.mp hx]
      exact hfree.left

/-- An owner leaves, and some of what it held becomes free. -/
theorem Exclusive.leave {back : List Block} (h : Exclusive held free) (o : Owner)
    (hback : back.Nodup) (hheld : forall b, b ∈ back -> b ∈ held o) :
    Exclusive (Function.update held o []) (back ++ free) := by
  refine ⟨?_, ?_, ?_, ?_⟩
  · intro o'
    by_cases ho : o' = o
    · subst ho
      rw [Function.update_self]
      exact List.nodup_nil
    · rw [Function.update_of_ne ho]
      exact h.distinct o'
  · intro o1 o2 b h1 h2
    exact h.apart o1 o2 b (mem_update_nil.mp h1).right (mem_update_nil.mp h2).right
  · rw [List.nodup_append]
    refine ⟨hback, h.freeNodup, ?_⟩
    intro x hx y hy hxy
    exact h.unowned o x (hheld x hx) (hxy ▸ hy)
  · intro o' b hb hmem
    rcases mem_update_nil.mp hb with ⟨hne, hb⟩
    rcases List.mem_append.mp hmem with hmem | hmem
    · exact hne (h.apart o' o b hb (hheld b hmem))
    · exact h.unowned o' b hb hmem

variable [DecidableEq Block]

theorem Conserves.take {b : Block} (h : Conserves held (b :: free) used all) (o : Owner) :
    Conserves (Function.update held o (held o ++ [b])) free (insert b used) all where
  toExclusive := h.toExclusive.take o
  owned := by
    intro x
    simp only [Finset.mem_insert, h.owned x, mem_update_append, List.mem_singleton]
    constructor
    · rintro (rfl | ⟨o', hx⟩)
      · exact ⟨o, Or.inr ⟨rfl, rfl⟩⟩
      · exact ⟨o', Or.inl hx⟩
    · rintro ⟨o', hx | ⟨_, hx⟩⟩
      · exact Or.inr ⟨o', hx⟩
      · exact Or.inl hx
  cover := by
    intro x
    rw [← h.cover x, Finset.mem_insert, List.mem_cons]
    tauto

theorem Conserves.giveBack (h : Conserves held free used all) (o : Owner) :
    Conserves (Function.update held o []) (held o ++ free) (used \ (held o).toFinset)
      all where
  toExclusive := h.toExclusive.leave o (h.distinct o) (fun _ hb => hb)
  owned := by
    intro x
    simp only [Finset.mem_sdiff, List.mem_toFinset, h.owned x, mem_update_nil]
    constructor
    · rintro ⟨⟨o', hx⟩, hnot⟩
      refine ⟨o', ?_, hx⟩
      rintro rfl
      exact hnot hx
    · rintro ⟨o', hne, hx⟩
      exact ⟨⟨o', hx⟩, fun hxo => hne (h.apart o' o x hx hxo)⟩
  cover := by
    intro x
    have hused : x ∈ held o -> x ∈ used := fun hx => (h.owned x).mpr ⟨o, hx⟩
    rw [← h.cover x, Finset.mem_sdiff, List.mem_toFinset, List.mem_append]
    tauto

end Foundation
end SpongeBob
