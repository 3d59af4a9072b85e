/-
  BreWebServer.Lib.Registry — what the holders of a registry hold.

  A registry names its holders (`AList`); each holds at most one thing, which `f` reads
  off it. `holdings f m` is the multiset of the things held. Proved: a registry's holdings
  are one holder's and the others' (`holdings_split`), so filling, emptying and striking
  off a holder change them by its own share.
-/

import Mathlib.Data.List.AList
import Mathlib.Tactic

namespace BreWebServer.Lib.Registry

variable {α β γ : Type*} [DecidableEq α]

/-- At most one thing, as a multiset. -/
def share : Option γ → Multiset γ
  | none => 0
  | some c => {c}

@[simp] theorem share_none : share (none : Option γ) = 0 := rfl
@[simp] theorem share_some (c : γ) : share (some c) = {c} := rfl

variable (f : β → Option γ)

def holdings (m : AList fun _ : α => β) : Multiset γ := m.entries.filterMap fun e => f e.2

theorem holdings_insert (m : AList fun _ : α => β) (a : α) (b : β) :
    holdings f (m.insert a b) = share (f b) + holdings f (m.erase a) := by
  unfold holdings
  rw [AList.entries_insert, List.filterMap_cons]
  cases f b <;> rfl

/-- A holder's share, and the others'. -/
theorem holdings_split {m : AList fun _ : α => β} {a : α} {b : β} (h : m.lookup a = some b) :
    holdings f m = share (f b) + holdings f (m.erase a) := by
  have hmem : a ∈ m.entries.keys := AList.mem_keys.mp (AList.lookup_isSome.mp (by rw [h]; rfl))
  obtain ⟨b', l₁, l₂, hnot, hm, he⟩ := List.exists_of_kerase hmem
  have hb : b' = b := by
    have hl : m.lookup a = some b' := by
      unfold AList.lookup
      rw [hm, List.dlookup_append, List.dlookup_eq_none.mpr hnot]
      simp
    rw [h] at hl
    exact (Option.some.inj hl).symm
  subst hb
  unfold holdings
  show _ = share (f b') + ((List.kerase a m.entries).filterMap fun e => f e.2 : List γ)
  rw [he, hm, List.filterMap_append, List.filterMap_append, List.filterMap_cons]
  cases f b' with
  | none => simp
  | some c =>
    simp only [share_some, Multiset.singleton_add, Multiset.cons_coe, Multiset.coe_eq_coe]
    exact List.perm_middle

/-- A name that holds nothing, registered or not, takes on a new share. -/
theorem holdings_fill {m : AList fun _ : α => β} {a : α} (h : ∀ b, m.lookup a = some b → f b = none) (b : β) :
    holdings f (m.insert a b) = share (f b) + holdings f m := by
  rw [holdings_insert]
  congr 1
  cases ha : m.lookup a with
  | none =>
    have hn : a ∉ m.entries.keys := fun hm => AList.lookup_eq_none.mp ha (AList.mem_keys.mpr hm)
    unfold holdings
    show ((List.kerase a m.entries).filterMap fun e => f e.2 : Multiset γ) = _
    rw [List.kerase_of_notMem_keys hn]
  | some b' =>
    rw [holdings_split f ha, h b' ha, share_none, zero_add]

/-- A holder rewritten to hold nothing gives up its share. -/
theorem holdings_empty {m : AList fun _ : α => β} {a : α} {b b' : β} (h : m.lookup a = some b) (hb : f b' = none) :
    share (f b) + holdings f (m.insert a b') = holdings f m := by
  rw [holdings_insert, hb, share_none, zero_add, ← holdings_split f h]

/-- A holder that holds nothing is struck off without loss. -/
theorem holdings_erase {m : AList fun _ : α => β} {a : α} {b : β} (h : m.lookup a = some b) (hb : f b = none) :
    holdings f (m.erase a) = holdings f m := by
  rw [holdings_split f h, hb, share_none, zero_add]

theorem mem_holdings {m : AList fun _ : α => β} {c : γ} : c ∈ holdings f m ↔ ∃ a b, m.lookup a = some b ∧ f b = some c := by
  unfold holdings
  rw [Multiset.mem_coe, List.mem_filterMap]
  constructor
  · intro h
    obtain ⟨e, he, hc⟩ := h
    exact ⟨e.1, e.2, AList.mem_lookup_iff.mpr he, hc⟩
  · intro h
    obtain ⟨a, b, hl, hc⟩ := h
    exact ⟨⟨a, b⟩, AList.mem_lookup_iff.mp hl, hc⟩

/-- Two readings that agree on every holder. -/
theorem holdings_congr {f g : β → Option γ} {m : AList fun _ : α => β} (h : ∀ a b, m.lookup a = some b → f b = g b) :
    holdings f m = holdings g m := by
  unfold holdings
  congr 1
  apply List.filterMap_congr
  intro e he
  exact h e.1 e.2 (AList.mem_lookup_iff.mpr he)

/-- Where every holder holds something. -/
theorem card_holdings {m : AList fun _ : α => β} (h : ∀ a b, m.lookup a = some b → (f b).isSome = true) :
    (holdings f m).card = m.keys.length := by
  have hall : ∀ e ∈ m.entries, (f e.2).isSome = true := fun e he => h e.1 e.2 (AList.mem_lookup_iff.mpr he)
  have hlength := List.filterMap_length_eq_length.mpr hall
  rw [holdings, Multiset.coe_card, hlength, AList.keys, List.keys, List.length_map]

/-- Where nothing is held twice, a thing tells its holder. -/
theorem holdings_apart {δ : Type*} {g : γ → δ} {m : AList fun _ : α => β} (h : ((holdings f m).map g).Nodup) {a a' : α}
    {b b' : β} {c c' : γ} (ha : m.lookup a = some b) (hb : f b = some c) (ha' : m.lookup a' = some b')
    (hb' : f b' = some c') (he : g c = g c') : a = a' := by
  by_contra hne
  rw [holdings_split f ha, hb, share_some, Multiset.singleton_add, Multiset.map_cons, Multiset.nodup_cons] at h
  have hrest : (m.erase a).lookup a' = some b' := by rw [AList.lookup_erase_ne (Ne.symm hne), ha']
  refine h.1 ?_
  rw [he]
  exact Multiset.mem_map_of_mem g ((mem_holdings f).mpr ⟨a', b', hrest, hb'⟩)

end BreWebServer.Lib.Registry
