import MemStack.Util.PrefixLog
import MemStack.Sync.Impl

/-!
This module contains what the single operations of a replica do to its log and its version vector,
and the invariant that relates both to what the origins have written.
-/

namespace MemStack
namespace Sync

open Std OrdMap PrefixLog

namespace VersionVector

def NonZero (vv : VersionVector) : Prop :=
  ∀ o : String, vv[o]? ≠ some 0

theorem eq_of_seen_eq {v w : VersionVector} (hv : v.NonZero) (hw : w.NonZero)
    (h : ∀ o, v.seen o = w.seen o)
    : v = w := by
  apply ExtTreeMap.ext_getElem?
  intro o
  have ho := h o
  have hvo := hv o
  have hwo := hw o
  unfold seen at ho
  cases hv' : v[o]? with
  | none =>
    cases hw' : w[o]? with
    | none => rfl
    | some n => simp_all
  | some m =>
    cases hw' : w[o]? with
    | none => simp_all
    | some n => simp_all

end VersionVector

namespace Replica

def slot (rec : SyncRecord) : String × Nat :=
  (rec.replicaId, rec.seq)

@[simp]
theorem bumpVv_log (r : Replica) (o : String) (s : Nat) : (r.bumpVv o s).log = r.log := by
  rfl

theorem bumpVv_seen (r : Replica) (o o' : String) (s : Nat)
    : (r.bumpVv o s).vv.seen o' = if o = o' then max (r.vv.seen o') s else r.vv.seen o' := by
  unfold bumpVv VersionVector.seen
  rw [ExtTreeMap.getElem?_alter]
  simp only [LawfulEqCmp.compare_eq_iff_eq]
  split
  . next h =>
    subst h
    dsimp
    split <;> omega
  . rfl

theorem bumpVv_nonZero {r : Replica} (hr : r.vv.NonZero) (o : String) {s : Nat} (hs : 0 < s)
    : (r.bumpVv o s).vv.NonZero := by
  intro o'
  unfold bumpVv
  rw [ExtTreeMap.getElem?_alter]
  split
  . dsimp
    simp only [Option.some.injEq]
    split <;> omega
  . apply hr

@[simp]
theorem merge_id (r : Replica) (l : List SyncRecord) : (r.merge l).id = r.id := by
  induction l generalizing r with
  | nil => rfl
  | cons rec l ih => exact ih (r.mergeOne rec)

theorem mergeOne_log (r : Replica) (rec : SyncRecord) (k : String × Nat)
    : (r.mergeOne rec).log[k]? = r.log[k]?.or (if slot rec = k then some rec else none) := by
  unfold mergeOne slot
  dsimp
  rw [ExtTreeMap.getElem?_insertIfNew]
  simp only [LawfulEqCmp.compare_eq_iff_eq]
  by_cases h : (rec.replicaId, rec.seq) = k
  . subst h
    by_cases hmem : (rec.replicaId, rec.seq) ∈ r.log
    . rw [ExtTreeMap.mem_iff_isSome_getElem?, Option.isSome_iff_exists] at hmem
      rcases hmem with ⟨old, hold⟩
      have := ExtTreeMap.isSome_getElem?_iff_mem.mp (Option.isSome_of_eq_some hold)
      simp [this]
    . simp [hmem]
  . simp [h]

theorem mergeOne_seen (r : Replica) (rec : SyncRecord) (o : String) (n : Nat)
    : n ≤ (r.mergeOne rec).vv.seen o
        ↔
      n ≤ r.vv.seen o ∨ (rec.replicaId = o ∧ n ≤ rec.seq) := by
  have : (r.mergeOne rec).vv.seen o = (r.bumpVv rec.replicaId rec.seq).vv.seen o := by rfl
  rw [this, bumpVv_seen]
  split
  . next h => simp [h]
  . next h => simp [h]

theorem merge_log (r : Replica) (l : List SyncRecord) (k : String × Nat)
    : (r.merge l).log[k]? = r.log[k]?.or (l.find? fun rec => slot rec = k) := by
  induction l generalizing r with
  | nil => simp [merge]
  | cons rec l ih =>
    have : r.merge (rec :: l) = (r.mergeOne rec).merge l := by rfl
    rw [this, ih, mergeOne_log, Option.or_assoc]
    congr 1
    by_cases h : slot rec = k
    . simp [h]
    . simp [h]

theorem merge_seen (r : Replica) (l : List SyncRecord) (o : String) (n : Nat)
    : n ≤ (r.merge l).vv.seen o
        ↔
      n ≤ r.vv.seen o ∨ ∃ rec ∈ l, rec.replicaId = o ∧ n ≤ rec.seq := by
  induction l generalizing r with
  | nil => simp [merge]
  | cons rec l ih =>
    have : r.merge (rec :: l) = (r.mergeOne rec).merge l := by rfl
    rw [this, ih, mergeOne_seen]
    simp only [List.mem_cons, exists_eq_or_imp, or_assoc]

theorem mem_deltaSince (r : Replica) (vv : VersionVector) (rec : SyncRecord)
    : rec ∈ r.deltaSince vv
        ↔
      (∃ k : String × Nat, r.log[k]? = some rec) ∧ vv.seen rec.replicaId < rec.seq := by
  simp [deltaSince, mem_values]

end Replica

def Authentic (hist : String → List ChangeEvent) (rec : SyncRecord) : Prop :=
  entry hist rec.replicaId rec.seq = some rec.event

/--
A replica that holds nothing but authentic records, each in its own slot and below the mark of its
origin. Whether it holds all records below the marks is left open, see `NoOverclaim`.
-/
structure Within (hist : String → List ChangeEvent) (r : Replica) : Prop where
  slot_eq : ∀ (k : String × Nat) rec, r.log[k]? = some rec → Replica.slot rec = k
  authentic : ∀ (k : String × Nat) rec, r.log[k]? = some rec → Authentic hist rec
  le_seen : ∀ (k : String × Nat) rec, r.log[k]? = some rec → rec.seq ≤ r.vv.seen rec.replicaId
  covers : Covers hist r.vv.seen
  nonZero : r.vv.NonZero
  nextSeq_eq : r.nextSeq = (hist r.id).length + 1
  seen_own : r.vv.seen r.id = (hist r.id).length

def NoOverclaim (r : Replica) : Prop :=
  ∀ o s, 0 < s → s ≤ r.vv.seen o → (o, s) ∈ r.log

/--
A batch closes all gaps between what was seen of an origin and what the batch brings of it.
-/
def GapFree (vv : VersionVector) (batch : List SyncRecord) : Prop :=
  ∀ rec ∈ batch, ∀ t, vv.seen rec.replicaId < t → t < rec.seq →
    ∃ rec' ∈ batch, Replica.slot rec' = (rec.replicaId, t)

theorem Authentic.seq_pos {hist : String → List ChangeEvent} {rec : SyncRecord}
    (h : Authentic hist rec)
    : 0 < rec.seq := by
  exact ((entry_eq_some_iff ..).mp h).1

theorem Authentic.seq_le {hist : String → List ChangeEvent} {rec : SyncRecord}
    (h : Authentic hist rec)
    : rec.seq ≤ (hist rec.replicaId).length := by
  have := (isSome_entry hist rec.replicaId rec.seq).mp (Option.isSome_of_eq_some h)
  exact this.2

theorem Authentic.issue {hist : String → List ChangeEvent} {rec : SyncRecord}
    (h : Authentic hist rec) (o : String) (event : ChangeEvent)
    : Authentic (issue hist o event) rec := by
  exact entry_issue_of_some h o event

theorem Authentic.eq_of_slot_eq {hist : String → List ChangeEvent} {rec rec' : SyncRecord}
    (h : Authentic hist rec) (h' : Authentic hist rec') (hslot : Replica.slot rec = Replica.slot rec')
    : rec = rec' := by
  rcases rec with ⟨o, s, event⟩
  rcases rec' with ⟨o', s', event'⟩
  simp only [Replica.slot, Prod.mk.injEq] at hslot
  rcases hslot with ⟨rfl, rfl⟩
  have : some event = some event' := by
    rw [← h, ← h']
  simp_all

namespace Within

theorem new (id : String) : Within (fun _ => []) (Replica.new id) := by
  constructor
  . intro k rec h
    simp [Replica.new] at h
  . intro k rec h
    simp [Replica.new] at h
  . intro k rec h
    simp [Replica.new] at h
  . intro o
    simp [Replica.new, VersionVector.seen]
  . intro o
    simp [Replica.new]
  . rfl
  . simp [Replica.new, VersionVector.seen]

variable {hist : String → List ChangeEvent} {r : Replica}

theorem issue_other (h : Within hist r) {o : String} (ho : r.id ≠ o) (event : ChangeEvent)
    : Within (issue hist o event) r where
  slot_eq := h.slot_eq
  authentic := fun k rec hrec => (h.authentic k rec hrec).issue o event
  le_seen := h.le_seen
  covers := covers_issue h.covers o event
  nonZero := h.nonZero
  nextSeq_eq := by
    rw [length_issue]
    simp [ho, h.nextSeq_eq]
  seen_own := by
    rw [length_issue]
    simp [ho, h.seen_own]

theorem mergeOne (h : Within hist r) {rec : SyncRecord} (hrec : Authentic hist rec)
    : Within hist (r.mergeOne rec) := by
  have hlog : ∀ (k : String × Nat) rec', (r.mergeOne rec).log[k]? = some rec' →
      r.log[k]? = some rec' ∨ (Replica.slot rec = k ∧ rec = rec') := by
    intro k rec' hk
    rw [Replica.mergeOne_log, Option.or_eq_some_iff] at hk
    rcases hk with hk | ⟨-, hk⟩
    . exact Or.inl hk
    . right
      simpa using hk
  have hseen : ∀ o, (r.mergeOne rec).vv.seen o
      = if rec.replicaId = o then max (r.vv.seen o) rec.seq else r.vv.seen o := by
    intro o
    exact Replica.bumpVv_seen r rec.replicaId o rec.seq
  constructor
  . intro k rec' hk
    rcases hlog k rec' hk with hk | ⟨hslot, rfl⟩
    . exact h.slot_eq k rec' hk
    . exact hslot
  . intro k rec' hk
    rcases hlog k rec' hk with hk | ⟨-, rfl⟩
    . exact h.authentic k rec' hk
    . exact hrec
  . intro k rec' hk
    rw [hseen]
    rcases hlog k rec' hk with hk | ⟨-, rfl⟩
    . have := h.le_seen k rec' hk
      split <;> omega
    . simp
  . intro o
    have := h.covers o
    have hle := hrec.seq_le
    rw [hseen]
    split
    . next ho =>
      subst ho
      omega
    . exact this
  . exact Replica.bumpVv_nonZero h.nonZero rec.replicaId hrec.seq_pos
  . exact h.nextSeq_eq
  . have hle := hrec.seq_le
    have := h.seen_own
    have hid : (r.mergeOne rec).id = r.id := by rfl
    rw [hid, hseen]
    split
    . next ho =>
      rw [ho] at hle
      omega
    . exact this

theorem merge (h : Within hist r) {l : List SyncRecord} (hl : ∀ rec ∈ l, Authentic hist rec)
    : Within hist (r.merge l) := by
  induction l generalizing r with
  | nil => exact h
  | cons rec l ih =>
    apply ih (r := r.mergeOne rec)
    . apply h.mergeOne
      exact hl rec List.mem_cons_self
    . intro rec' hrec'
      exact hl rec' (List.mem_cons_of_mem _ hrec')

theorem applyLocal_log (r : Replica) (event : ChangeEvent) (k : String × Nat)
    : (r.applyLocal event).1.log[k]?
        =
      if (r.id, r.nextSeq) = k then some ⟨r.id, r.nextSeq, event⟩ else r.log[k]? := by
  unfold Replica.applyLocal
  dsimp
  rw [Replica.bumpVv_log, ExtTreeMap.getElem?_insert]
  simp only [LawfulEqCmp.compare_eq_iff_eq]

theorem applyLocal_seen (h : Within hist r) (event : ChangeEvent) (o : String)
    : (r.applyLocal event).1.vv.seen o = r.vv.seen o + if o = r.id then 1 else 0 := by
  unfold Replica.applyLocal
  dsimp
  rw [Replica.bumpVv_seen]
  dsimp
  have h1 := h.seen_own
  have h2 := h.nextSeq_eq
  by_cases ho : r.id = o
  . subst ho
    simp only [↓reduceIte]
    omega
  . simp [ho, Ne.symm ho]

theorem applyLocal (h : Within hist r) (event : ChangeEvent)
    : Within (issue hist r.id event) (r.applyLocal event).1 := by
  have hlog : ∀ (k : String × Nat) rec, (r.applyLocal event).1.log[k]? = some rec →
      ((r.id, r.nextSeq) = k ∧ ⟨r.id, r.nextSeq, event⟩ = rec) ∨ r.log[k]? = some rec := by
    intro k rec hk
    rw [applyLocal_log] at hk
    split at hk
    . next hslot => exact Or.inl ⟨hslot, by simpa using hk⟩
    . exact Or.inr hk
  have hseen := h.applyLocal_seen event
  have hid : (r.applyLocal event).1.id = r.id := by rfl
  constructor
  . intro k rec hk
    rcases hlog k rec hk with ⟨hslot, rfl⟩ | hk
    . exact hslot
    . exact h.slot_eq k rec hk
  . intro k rec hk
    rcases hlog k rec hk with ⟨-, rfl⟩ | hk
    . unfold Authentic
      rw [h.nextSeq_eq]
      apply entry_issue_last
    . exact (h.authentic k rec hk).issue r.id event
  . intro k rec hk
    rw [hseen]
    rcases hlog k rec hk with ⟨-, rfl⟩ | hk
    . have := h.seen_own
      have := h.nextSeq_eq
      simp only [↓reduceIte]
      omega
    . have := h.le_seen k rec hk
      omega
  . intro o
    have := h.covers o
    rw [hseen, length_issue]
    omega
  . apply Replica.bumpVv_nonZero
    . exact h.nonZero
    . have := h.nextSeq_eq
      omega
  . rw [hid, length_issue]
    have := h.nextSeq_eq
    change r.nextSeq + 1 = _
    simp [this]
  . rw [hid, hseen, length_issue]
    have := h.seen_own
    simp [this]

theorem log_eq (h : Within hist r) (hclaim : NoOverclaim r) (o : String) (s : Nat)
    : r.log[(o, s)]? = (upTo hist r.vv.seen o s).map (SyncRecord.mk o s) := by
  cases hlog : r.log[(o, s)]? with
  | none =>
    have hmem : (o, s) ∉ r.log := by
      rw [ExtTreeMap.mem_iff_isSome_getElem?, hlog]
      simp
    have hupTo : ¬ (upTo hist r.vv.seen o s).isSome := by
      rw [isSome_upTo h.covers]
      intro hs
      exact hmem (hclaim o s hs.1 hs.2)
    simp only [Option.not_isSome_iff_eq_none] at hupTo
    simp [hupTo]
  | some rec =>
    have hslot := h.slot_eq _ _ hlog
    have hauth := h.authentic _ _ hlog
    have hle := h.le_seen _ _ hlog
    rcases rec with ⟨o', s', event⟩
    simp only [Replica.slot, Prod.mk.injEq] at hslot
    rcases hslot with ⟨rfl, rfl⟩
    unfold Authentic at hauth
    simp_all [upTo]

theorem mem_deltaSince (h : Within hist r) (vv : VersionVector) (rec : SyncRecord)
    : rec ∈ r.deltaSince vv
        ↔
      r.log[Replica.slot rec]? = some rec ∧ vv.seen rec.replicaId < rec.seq := by
  rw [Replica.mem_deltaSince]
  constructor
  . rintro ⟨⟨k, hk⟩, hlt⟩
    have := h.slot_eq k rec hk
    exact ⟨this ▸ hk, hlt⟩
  . rintro ⟨hk, hlt⟩
    exact ⟨⟨_, hk⟩, hlt⟩

theorem authentic_of_mem_deltaSince (h : Within hist r) {vv : VersionVector} {rec : SyncRecord}
    (hrec : rec ∈ r.deltaSince vv)
    : Authentic hist rec := by
  rw [h.mem_deltaSince] at hrec
  exact h.authentic _ _ hrec.1

theorem noOverclaim_applyLocal (h : Within hist r) (hclaim : NoOverclaim r) (event : ChangeEvent)
    : NoOverclaim (r.applyLocal event).1 := by
  intro o s hpos hle
  rw [h.applyLocal_seen] at hle
  rw [ExtTreeMap.mem_iff_isSome_getElem?, applyLocal_log]
  split
  . rfl
  . next hne =>
    rw [← ExtTreeMap.mem_iff_isSome_getElem?]
    apply hclaim o s hpos
    by_cases ho : o = r.id
    . subst ho
      have := h.seen_own
      have := h.nextSeq_eq
      have : s ≠ r.nextSeq := by
        rintro rfl
        exact hne rfl
      simp only [↓reduceIte] at hle
      omega
    . simpa [ho] using hle

/--
Merging keeps the version vector honest exactly for gap-free batches. The other direction holds
because a record below the new mark that is neither in the log nor in the batch stays missing.
-/
theorem noOverclaim_merge_iff (h : Within hist r) (hclaim : NoOverclaim r) (l : List SyncRecord)
    : NoOverclaim (r.merge l) ↔ GapFree r.vv l := by
  have hmem : ∀ k, k ∈ (r.merge l).log ↔ k ∈ r.log ∨ ∃ rec ∈ l, Replica.slot rec = k := by
    intro k
    rw [ExtTreeMap.mem_iff_isSome_getElem?, Replica.merge_log, Option.isSome_or]
    rw [ExtTreeMap.mem_iff_isSome_getElem?]
    simp [List.find?_isSome]
  have hseen : ∀ k, k ∈ r.log → k.2 ≤ r.vv.seen k.1 := by
    intro k hk
    rw [ExtTreeMap.mem_iff_isSome_getElem?, Option.isSome_iff_exists] at hk
    rcases hk with ⟨rec, hrec⟩
    have hslot := h.slot_eq k rec hrec
    have hle := h.le_seen k rec hrec
    subst hslot
    exact hle
  constructor
  . intro hmerged rec hrec t hlt hgt
    have hheld := hmerged rec.replicaId t (by omega) (by
      rw [Replica.merge_seen]
      exact Or.inr ⟨rec, hrec, rfl, by omega⟩)
    rw [hmem] at hheld
    rcases hheld with hold | hnew
    . have := hseen _ hold
      dsimp at this
      omega
    . exact hnew
  . intro hgap o s hpos hle
    rw [hmem]
    rw [Replica.merge_seen] at hle
    rcases hle with hle | ⟨rec, hrec, rfl, hle⟩
    . exact Or.inl (hclaim o s hpos hle)
    . by_cases hs : s ≤ r.vv.seen rec.replicaId
      . exact Or.inl (hclaim _ s hpos hs)
      . right
        cases Nat.lt_or_eq_of_le hle with
        | inl hlt => exact hgap rec hrec s (by omega) hlt
        | inr heq => exact ⟨rec, hrec, by rw [heq]; rfl⟩

end Within

end Sync
end MemStack
