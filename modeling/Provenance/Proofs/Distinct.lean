import Mathlib.Data.List.Nodup
import Provenance.Distinct

/-!
# Distinct entries

Keeping the first entry of each key loses no key, adds no entry and leaves no two entries with one
key.
-/

namespace Provenance

variable {α κ : Type} [DecidableEq κ] {key : α → κ}

theorem distinctBy_subset (l : List α) : distinctBy key l ⊆ l := by
  induction l with
  | nil => exact List.Subset.refl _
  | cons a l ih =>
    apply List.cons_subset_cons
    exact List.Subset.trans (fun b hb => (List.mem_filter.mp hb).1) ih

theorem exists_mem_distinctBy {l : List α} {a : α} (h : a ∈ l) :
    ∃ b ∈ distinctBy key l, key b = key a := by
  induction l with
  | nil => simp at h
  | cons c l ih =>
    by_cases hc : key c = key a
    · exact ⟨c, by simp [distinctBy], hc⟩
    · have hal : a ∈ l := by
        rcases List.mem_cons.mp h with rfl | hal
        · exact absurd rfl hc
        · exact hal
      obtain ⟨b, hb, hkey⟩ := ih hal
      refine ⟨b, ?_, hkey⟩
      rw [distinctBy]
      apply List.mem_cons_of_mem
      rw [List.mem_filter]
      exact ⟨hb, by simpa [hkey] using Ne.symm hc⟩

theorem nodup_map_distinctBy (l : List α) : ((distinctBy key l).map key).Nodup := by
  induction l with
  | nil => exact List.nodup_nil
  | cons a l ih =>
    rw [distinctBy, List.map_cons, List.nodup_cons]
    constructor
    · simp
    · exact ih.sublist (List.filter_sublist.map key)

theorem distinctBy_of_nodup {l : List α} (h : (l.map key).Nodup) : distinctBy key l = l := by
  induction l with
  | nil => rfl
  | cons a l ih =>
    obtain ⟨hhead, htail⟩ := List.nodup_cons.mp h
    rw [distinctBy, ih htail, List.filter_eq_self.mpr]
    intro b hb
    have hne : key b ≠ key a := fun heq => hhead (heq ▸ List.mem_map_of_mem hb)
    simpa using hne

theorem mem_distinctBy {l : List α} (h : ∀ a ∈ l, ∀ b ∈ l, key a = key b → a = b) {a : α} :
    a ∈ distinctBy key l ↔ a ∈ l := by
  constructor
  · intro ha
    exact distinctBy_subset l ha
  · intro ha
    obtain ⟨b, hb, hkey⟩ : ∃ b ∈ distinctBy key l, key b = key a := exists_mem_distinctBy ha
    rwa [h a ha b (distinctBy_subset l hb) hkey.symm]

/-- Where a key belongs to one entry, the same entries are kept in any order. -/
theorem distinctBy_perm {l l' : List α} (hperm : l.Perm l')
    (h : ∀ a ∈ l, ∀ b ∈ l, key a = key b → a = b) :
    (distinctBy key l).Perm (distinctBy key l') := by
  have h' : ∀ a ∈ l', ∀ b ∈ l', key a = key b → a = b := fun a ha b hb =>
    h a (hperm.mem_iff.mpr ha) b (hperm.mem_iff.mpr hb)
  have hnodup : ∀ l, (distinctBy key l).Nodup := fun l => .of_map key (nodup_map_distinctBy l)
  rw [List.perm_ext_iff_of_nodup (hnodup l) (hnodup l')]
  intro a
  rw [mem_distinctBy h, mem_distinctBy h', hperm.mem_iff]

/-- Where what an entry stands for has one key, all of it is kept exactly if no two entries that
stand for different things have one key. -/
theorem forall_exists_mem_distinctBy_iff {π : Type} {value : α → π}
    (h : ∀ a b, value a = value b → key a = key b) (l : List α) :
    (∀ a ∈ l, ∃ b ∈ distinctBy key l, value b = value a) ↔
      ∀ a ∈ l, ∀ b ∈ l, key a = key b → value a = value b := by
  constructor
  · intro hall a ha b hb hkey
    obtain ⟨a', ha', hvalue⟩ := hall a ha
    obtain ⟨b', hb', hvalue'⟩ := hall b hb
    have hkeys : key a' = key b' := by rw [h _ _ hvalue, h _ _ hvalue', hkey]
    obtain rfl := List.inj_on_of_nodup_map (nodup_map_distinctBy l) ha' hb' hkeys
    exact hvalue.symm.trans hvalue'
  · intro hkeys a ha
    obtain ⟨b, hb, hkey⟩ : ∃ b ∈ distinctBy key l, key b = key a := exists_mem_distinctBy ha
    exact ⟨b, hb, hkeys b (distinctBy_subset l hb) a ha hkey⟩

theorem mem_map_distinctBy {l : List α} {k : κ} :
    k ∈ (distinctBy key l).map key ↔ k ∈ l.map key := by
  constructor
  · intro hk
    obtain ⟨a, ha, rfl⟩ := List.mem_map.mp hk
    exact List.mem_map_of_mem (distinctBy_subset l ha)
  · intro hk
    obtain ⟨a, ha, rfl⟩ := List.mem_map.mp hk
    obtain ⟨b, hb, hkey⟩ : ∃ b ∈ distinctBy key l, key b = key a := exists_mem_distinctBy ha
    exact List.mem_map.mpr ⟨b, hb, hkey⟩

theorem distinctBy_append (l l' : List α) :
    distinctBy key (l ++ l') =
      distinctBy key l ++ (distinctBy key l').filter fun b => key b ∉ l.map key := by
  induction l with
  | nil => simp [distinctBy]
  | cons a l ih =>
    have hkeys : ∀ b, (decide (key b ≠ key a) && decide (key b ∉ l.map key)) =
        decide (key b ∉ (a :: l).map key) := by
      intro b
      by_cases hb : key b = key a <;> simp [hb]
    rw [List.cons_append, distinctBy, ih, List.filter_append, List.filter_filter, distinctBy,
      List.cons_append]
    simp only [hkeys]

theorem distinctBy_map {f : α → α} (hf : ∀ a, key (f a) = key a) (l : List α) :
    distinctBy key (l.map f) = (distinctBy key l).map f := by
  induction l with
  | nil => rfl
  | cons a l ih =>
    have hkeep : (fun b => decide (key b ≠ key (f a))) ∘ f = fun b => decide (key b ≠ key a) := by
      funext b
      simp [hf]
    rw [List.map_cons, distinctBy, ih, List.filter_map, hkeep, distinctBy, List.map_cons]

end Provenance
