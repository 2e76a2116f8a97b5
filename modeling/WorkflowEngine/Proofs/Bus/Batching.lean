import Mathlib.Data.List.Nodup
import WorkflowEngine.Bus.Consumer

/-!
What a batching consumer does with messages. Those it takes in are gathered in batches, one for each
tenant and kind; it holds every message until the batch of it is handed over, and hands it over once.
-/

namespace WorkflowEngine

namespace Batch

variable {b : Batch} {bs : List Batch} {m : Message}

/-- What is gathered together. -/
def key (b : Batch) : TenantId × String := (b.tenantId, b.kindName)

/-- The messages of all batches. -/
def all (bs : List Batch) : List Message := bs.flatMap (·.messages)

@[simp] theorem all_nil : all [] = [] := rfl

@[simp] theorem all_append {bs' : List Batch} : all (bs ++ bs') = all bs ++ all bs' := List.flatMap_append

theorem fits_iff : b.fits m = true ↔ b.key = (m.tenantId, m.kindName) := by
  simp [fits, key]

theorem all_gather (m : Message) (bs : List Batch) : (all (gather m bs)).Perm (m :: all bs) := by
  induction bs with
  | nil => exact List.Perm.refl _
  | cons b rest ih =>
    unfold gather
    split
    · change ((b.messages ++ [m]) ++ all rest).Perm (m :: (b.messages ++ all rest))
      rw [List.append_assoc]
      exact List.perm_middle
    · exact (ih.append_left b.messages).trans List.perm_middle

/-- A new batch has a key of its own. -/
theorem keys_gather (distinct : (bs.map key).Nodup) : ((gather m bs).map key).Nodup ∧
    ∀ k ∈ (gather m bs).map key, k = (m.tenantId, m.kindName) ∨ k ∈ bs.map key := by
  induction bs with
  | nil => exact ⟨List.nodup_singleton _, fun k hk => Or.inl (List.mem_singleton.mp hk)⟩
  | cons b rest ih =>
    obtain ⟨fresh, distinct'⟩ := List.nodup_cons.mp distinct
    unfold gather
    split
    · exact ⟨distinct, fun k hk => Or.inr hk⟩
    · rename_i other
      obtain ⟨once, known⟩ := ih distinct'
      refine ⟨List.nodup_cons.mpr ⟨fun listed => ?_, once⟩, fun k hk => ?_⟩
      · exact (known _ listed).elim (fun same => other (fits_iff.mpr same)) fresh
      · rcases List.mem_cons.mp hk with rfl | later
        · exact Or.inr List.mem_cons_self
        · exact (known k later).imp_right (List.mem_cons_of_mem _)

/-- What is gathered under a key, in order. -/
def under (k : TenantId × String) (bs : List Batch) : List Message :=
  (bs.filter (·.key == k)).flatMap (·.messages)

theorem under_eq_nil {k : TenantId × String} (fresh : k ∉ bs.map key) : under k bs = [] := by
  rw [under, List.filter_eq_nil_iff.mpr fun b hb same => fresh ?_, List.flatMap_nil]
  exact List.mem_map.mpr ⟨b, hb, eq_of_beq same⟩

theorem under_cons (k : TenantId × String) (b : Batch) (bs : List Batch) :
    under k (b :: bs) = (if b.key = k then b.messages else []) ++ under k bs := by
  unfold under
  by_cases here : b.key = k <;> simp [here]

theorem under_of_mem (distinct : (bs.map key).Nodup) (hb : b ∈ bs) : under b.key bs = b.messages := by
  induction bs with
  | nil => cases hb
  | cons first rest ih =>
    obtain ⟨fresh, distinct'⟩ := List.nodup_cons.mp distinct
    rw [under_cons]
    rcases List.mem_cons.mp hb with rfl | later
    · rw [if_pos rfl, under_eq_nil fresh, List.append_nil]
    · have apart : first.key ≠ b.key := fun same => fresh (same ▸ List.mem_map_of_mem later)
      rw [if_neg apart, List.nil_append, ih distinct' later]

/-- A message comes behind the others under its key. -/
theorem under_gather (distinct : (bs.map key).Nodup) (k : TenantId × String) (m : Message) :
    under k (gather m bs) = under k bs ++ if (m.tenantId, m.kindName) = k then [m] else [] := by
  induction bs with
  | nil => exact (under_cons k (ofMessage m) []).trans (List.append_nil _)
  | cons b rest ih =>
    obtain ⟨fresh, distinct'⟩ := List.nodup_cons.mp distinct
    unfold gather
    split
    · rename_i fits
      rw [under_cons, under_cons, ← fits_iff.mp fits]
      change (if b.key = k then b.messages ++ [m] else []) ++ _ = _
      split
      · rename_i same
        rw [under_eq_nil (same ▸ fresh), List.append_nil, List.append_nil]
      · rw [List.append_nil]
    · rw [under_cons, under_cons, ih distinct', List.append_assoc]

/-- A batch, and the others. -/
theorem all_split (distinct : (bs.map key).Nodup) (hb : b ∈ bs) :
    (b.messages ++ all (bs.filter (·.key != b.key))).Perm (all bs) := by
  have split := (List.filter_append_perm (·.key == b.key) bs).flatMap_right (·.messages)
  rw [List.flatMap_append] at split
  rw [← under_of_mem distinct hb]
  exact split

end Batch

namespace Message

variable {m m' : Message}

theorem retries_of_dropped (dropped : m.redelivery? = none) : m.retries = 0 := by
  unfold redelivery? at dropped
  split at dropped
  · assumption
  · cases dropped

theorem retries_of_again (again : m.redelivery? = some m') : m.retries = m'.retries + 1 := by
  unfold redelivery? at again
  split at again
  · cases again
  · cases again
    assumption

end Message

namespace Consumer

open Batch

variable {c : Consumer} {m : Message}

/-- The messages that wait in batches. -/
def held (c : Consumer) : List Message := all c.batches

def Keyed (c : Consumer) : Prop := (c.batches.map key).Nodup

/-- A message is gathered, and its batch is taken away from the others if it is large enough then. -/
theorem receive_cases (c : Consumer) (m : Message) :
    c.receive m = (none, { c with batches := gather m c.batches }) ∨
    ∃ b ∈ gather m c.batches, b.fits m = true ∧ c.maxBatch ≤ b.messages.length ∧
      c.receive m = (some b, { c with batches := (gather m c.batches).filter (·.key != b.key) }) := by
  unfold receive
  dsimp only
  split
  · exact Or.inl rfl
  · rename_i b found
    have fits := List.find?_some found
    split
    · rename_i large
      refine Or.inr ⟨b, List.mem_of_find?_eq_some found, fits, large, ?_⟩
      have others (b' : Batch) : (!b'.fits m) = (b'.key != b.key) := by
        rw [fits_iff.mp fits, Bool.eq_iff_iff, Bool.not_eq_true', bne_iff_ne, Ne, ← fits_iff,
          Bool.not_eq_true]
      simp only [others]
    · exact Or.inl rfl

/-- A message that is taken in is held, or handed over with the batch that it fills. -/
theorem receive_held (keyed : c.Keyed) (m : Message) : (c.receive m).2.Keyed ∧
    (c.receive m).2.queue = c.queue ∧
    (all (c.receive m).1.toList ++ (c.receive m).2.held).Perm (m :: c.held) := by
  have gathered := all_gather m c.batches
  have keys := (keys_gather (m := m) keyed).1
  rcases c.receive_cases m with waits | ⟨b, hb, -, -, full⟩
  · rw [waits]
    exact ⟨keys, rfl, gathered⟩
  · rw [full]
    refine ⟨keys.sublist (List.filter_sublist.map _), rfl, ?_⟩
    have split := (all_split keys hb).trans gathered
    simpa [all, held] using split

end Consumer

end WorkflowEngine
