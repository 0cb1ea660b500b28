import ChainIndexer.Core.Relay
import ChainIndexer.Transfers.State
import Mathlib.Data.Nat.Basic

/-!
# The collection of transfers

A call of `save` that resolves replaces the documents from the height of its block on. One that
rejects leaves the documents below that height alone, so the next call for the block makes up for
it. Whatever is delivered again, the collection of a consumer that has caught up holds the transfers
of the blocks that no later block of the topic supersedes.
-/

namespace ChainIndexer.Transfers

open Consumption (Reaches Completes)
open Service (Executes)

variable {s t : Collection} {n : Nat}

private theorem below_append : below n (s ++ t) = below n s ++ below n t := List.filter_append _ _

/-- Documents from the bound on are not below it. -/
theorem below_eq_nil (h : ∀ transfer ∈ s, n ≤ transfer.blockNumber) : below n s = [] :=
  filter_below_eq_nil h

/-- What is below a height stays there. -/
@[simp] theorem below_below (n : Nat) (s : Collection) : below n (below n s) = below n s := by
  simp [below, List.filter_filter]

/-- A deletion that fails half-way leaves the documents below its bound. -/
theorem below_of_sublist (h : s.Sublist t) (hbelow : (below n t).Sublist s) :
    below n s = below n t := by
  refine List.Sublist.eq_of_length_le (h.filter _) ?_
  have hle := (hbelow.filter (·.blockNumber < n)).length_le
  rwa [← below, ← below, below_below] at hle

/-! ## One block -/

/-- A block that is not empty. -/
def hasTransfers (block : TransformedBlock MaticTransferTx) : Bool := 0 < block.data.length

/-- What a call of `next` that resolves makes of the collection. -/
def apply : Collection → TransformedBlock MaticTransferTx → Collection :=
  overwrite (·.blockNumber) hasTransfers map (·.blockNumber)

/-- Collections with the same documents below the height of a block, or the same ones at all if the
block has no transfers. -/
def Agree : TransformedBlock MaticTransferTx → Collection → Collection → Prop :=
  AgreeBelow (·.blockNumber) hasTransfers (·.blockNumber)

/-- A block overwrites the transfers from its height on. -/
theorem overwrites_apply : Overwrites apply Agree :=
  overwrites fun _ _ hmem => (mem_map hmem).1

/-- `addAllTransfers` appends all of its transfers, or some of the first ones. -/
theorem addAllTransfers_spec {data : List Transfer} {result : Except Thrown Unit}
    (h : Executes Serves (addAllTransfers data) s result t) :
    ∃ added, t = s ++ added ∧ added <+: data ∧ (result.isOk = true → added = data) := by
  induction data generalizing s with
  | nil =>
    obtain ⟨rfl, rfl⟩ := Executes.done_iff.mp h
    exact ⟨[], (List.append_nil _).symm, List.nil_prefix, fun _ => rfl⟩
  | cons transfer data ih =>
    obtain ⟨answer, u, hserves, hrest⟩ := Executes.call_iff.mp h
    cases hserves with
    | created =>
      obtain ⟨added, rfl, hbegins, hall⟩ := ih hrest
      refine ⟨transfer :: added, by simp, ?_, fun hok => by rw [hall hok]⟩
      exact (List.prefix_cons_inj transfer).mpr hbegins
    | uncreated hwritten =>
      obtain ⟨rfl, rfl⟩ := Executes.done_iff.mp hrest
      rcases hwritten with rfl | rfl
      · exact ⟨[], (List.append_nil _).symm, List.nil_prefix, fun hok => by cases hok⟩
      · exact ⟨[transfer], rfl, ⟨data, rfl⟩, fun hok => by cases hok⟩

/-- `deleteTxsForReorg` deletes from a height on, or some of these documents if it fails. -/
theorem deleteTxsForReorg_spec {result : Except Thrown Nat}
    (h : Executes Serves (deleteTxsForReorg n) s result t) :
    t.Sublist s ∧ below n t = below n s ∧ (result.isOk = true → t = below n s) := by
  obtain ⟨answer, u, hserves, hrest⟩ := Executes.call_iff.mp h
  obtain ⟨rfl, rfl⟩ := Executes.done_iff.mp hrest
  cases hserves with
  | deleted => exact ⟨List.filter_sublist, below_below n s, fun _ => rfl⟩
  | undeleted hsub hbelow =>
    exact ⟨hsub, below_of_sublist hsub hbelow, fun hok => by cases hok⟩

/-- `getLastTransferBlock` reads the height of a document with the latest timestamp. -/
theorem getLastTransferBlock_spec {result : Except Thrown Nat}
    (h : Executes Serves getLastTransferBlock s result t) :
    t = s ∧ ∀ latest, result = .ok latest → (s = [] ∧ latest = 0) ∨
      ∃ transfer ∈ s, latest = transfer.blockNumber ∧
        ∀ other ∈ s, other.timestamp ≤ transfer.timestamp := by
  obtain ⟨answer, u, hserves, hrest⟩ := Executes.call_iff.mp h
  obtain ⟨rfl, rfl⟩ := Executes.done_iff.mp hrest
  cases hserves with
  | empty => exact ⟨rfl, fun latest hlatest => Or.inl ⟨rfl, (Except.ok.inj hlatest).symm⟩⟩
  | latest hmem hmax =>
    exact ⟨rfl, fun latest hlatest => Or.inr ⟨_, hmem, (Except.ok.inj hlatest).symm, hmax⟩⟩
  | unread => exact ⟨rfl, fun latest hlatest => by cases hlatest⟩

/-- The timestamps of these documents rise with their heights. -/
def Rising (documents : Collection) : Prop :=
  ∀ a ∈ documents, ∀ b ∈ documents, a.blockNumber < b.blockNumber → a.timestamp < b.timestamp

/-- If the latest document is below a height, all of them are. -/
theorem below_eq_self {latest : Nat} (hrising : Rising s) (hlt : latest < n)
    (h : (s = [] ∧ latest = 0) ∨ ∃ transfer ∈ s, latest = transfer.blockNumber ∧
      ∀ other ∈ s, other.timestamp ≤ transfer.timestamp) : below n s = s := by
  rcases h with ⟨rfl, -⟩ | ⟨transfer, hmem, rfl, hmax⟩
  · rfl
  · rw [below, List.filter_eq_self]
    intro other hother
    have hle : other.blockNumber ≤ transfer.blockNumber :=
      Nat.le_of_not_lt fun hgt =>
        absurd (hrising transfer hmem other hother hgt) (Nat.not_lt.mpr (hmax other hother))
    exact decide_eq_true (Nat.lt_of_le_of_lt hle hlt)

/-- `save` keeps a part of the collection, which has the documents below the height, and appends
some of the first transfers. If it resolves, that is all it keeps, and it has appended all. -/
theorem save_spec {first : Transfer} {data : List Transfer} {result : Except Thrown Bool}
    (hrising : Rising s) (h : Executes Serves (save (first :: data)) s result t) :
    ∃ kept added, t = kept ++ added ∧ kept.Sublist s ∧
      below first.blockNumber kept = below first.blockNumber s ∧ added <+: first :: data ∧
      (result.isOk = true → kept = below first.blockNumber s ∧ added = first :: data) := by
  rcases Executes.andThen_iff.mp h with ⟨latest, u, hread, hrest⟩ | ⟨error, hread, rfl⟩
  · obtain ⟨rfl, hlatest⟩ := getLastTransferBlock_spec hread
    -- whether or not the re-org is noticed, the insertions start from a part of the collection
    have hcleared : ∀ {outcome v}, Executes Serves
        (if first.blockNumber ≤ latest then
          (deleteTxsForReorg first.blockNumber).andThen fun _ => .done (.ok ())
        else .done (.ok ())) u outcome v →
        v.Sublist u ∧ below first.blockNumber v = below first.blockNumber u ∧
          (outcome.isOk = true → v = below first.blockNumber u) := by
      intro outcome v hclear
      split at hclear
      · rcases Executes.andThen_iff.mp hclear with
          ⟨count, w, hdelete, hdone⟩ | ⟨error, hdelete, rfl⟩
        · obtain ⟨rfl, rfl⟩ := Executes.done_iff.mp hdone
          obtain ⟨hsub, hbelow, hok⟩ := deleteTxsForReorg_spec hdelete
          exact ⟨hsub, hbelow, fun _ => hok rfl⟩
        · obtain ⟨hsub, hbelow, -⟩ := deleteTxsForReorg_spec hdelete
          exact ⟨hsub, hbelow, fun hok => by cases hok⟩
      · rename_i hlt
        obtain ⟨rfl, rfl⟩ := Executes.done_iff.mp hclear
        have hself := below_eq_self hrising (Nat.lt_of_not_le hlt) (hlatest latest rfl)
        exact ⟨List.Sublist.refl _, rfl, fun _ => hself.symm⟩
    rcases Executes.andThen_iff.mp hrest with ⟨_, v, hclear, hadd⟩ | ⟨error, hclear, rfl⟩
    · obtain ⟨hsub, hbelow, hok⟩ := hcleared hclear
      rcases Executes.andThen_iff.mp hadd with ⟨_, w, hadded, hdone⟩ | ⟨error, hadded, rfl⟩
      · obtain ⟨rfl, rfl⟩ := Executes.done_iff.mp hdone
        obtain ⟨added, rfl, hbegins, hall⟩ := addAllTransfers_spec hadded
        exact ⟨v, added, rfl, hsub, hbelow, hbegins, fun _ => ⟨hok rfl, hall rfl⟩⟩
      · obtain ⟨added, rfl, hbegins, -⟩ := addAllTransfers_spec hadded
        exact ⟨v, added, rfl, hsub, hbelow, hbegins, fun hok => by cases hok⟩
    · obtain ⟨hsub, hbelow, -⟩ := hcleared hclear
      exact ⟨t, [], (List.append_nil _).symm, hsub, hbelow, List.nil_prefix,
        fun hok => by cases hok⟩
  · obtain ⟨rfl, -⟩ := getLastTransferBlock_spec hread
    exact ⟨t, [], (List.append_nil _).symm, List.Sublist.refl _, rfl, List.nil_prefix,
      fun hok => by cases hok⟩

/-- A call of `next` overwrites the collection from its height on, or leaves what is below it. -/
theorem handle_spec {block : TransformedBlock MaticTransferTx} {ok : Bool} (hrising : Rising s)
    (h : handle block s ok t) :
    (ok = true → t = apply s block) ∧ Agree block t s ∧
      ∀ transfer ∈ t, transfer ∈ s ∨ transfer ∈ map block := by
  obtain ⟨result, hexec, rfl⟩ := h
  rw [next] at hexec
  split at hexec
  · rename_i hlength
    have hkept : hasTransfers block = true := decide_eq_true hlength
    have hdata : block.data ≠ [] := List.ne_nil_of_length_pos hlength
    obtain ⟨first, data, hmap⟩ : ∃ first data, map block = first :: data :=
      List.exists_cons_of_ne_nil (by simpa [map] using hdata)
    have hmem : first ∈ map block := by
      rw [hmap]
      exact List.mem_cons_self
    have hfirst : first.blockNumber = block.blockNumber := (mem_map hmem).1
    obtain ⟨outcome, hsave, hok⟩ : ∃ outcome, Executes Serves (save (map block)) s outcome t ∧
        (result.isOk = true → outcome.isOk = true) := by
      rcases Executes.andThen_iff.mp hexec with ⟨value, u, hsave, hdone⟩ | ⟨error, hsave, rfl⟩
      · obtain ⟨rfl, rfl⟩ := Executes.done_iff.mp hdone
        exact ⟨_, hsave, fun _ => rfl⟩
      · exact ⟨_, hsave, fun hok => by cases hok⟩
    rw [hmap] at hsave
    obtain ⟨kept, added, rfl, hsub, hbelow, hbegins, hall⟩ := save_spec hrising hsave
    rw [hfirst] at hbelow hall
    have hadded : ∀ transfer ∈ added, transfer ∈ map block := fun transfer hmem => by
      rw [hmap]
      exact hbegins.subset hmem
    refine ⟨fun h => ?_, ?_, fun transfer hmem => ?_⟩
    · obtain ⟨rfl, rfl⟩ := hall (hok h)
      rw [apply, overwrite_of_kept hkept, hmap]
      rfl
    · rw [Agree, agreeBelow_of_kept hkept]
      change below _ _ = below _ _
      rw [below_append, hbelow,
        below_eq_nil fun transfer hmem => Nat.le_of_eq (mem_map (hadded transfer hmem)).1.symm,
        List.append_nil]
    · rcases List.mem_append.mp hmem with hold | hnew
      · exact Or.inl (hsub.subset hold)
      · exact Or.inr (hadded transfer hnew)
  · rename_i hlength
    have hkept : hasTransfers block = false := decide_eq_false hlength
    obtain ⟨rfl, rfl⟩ := Executes.done_iff.mp hexec
    exact ⟨fun _ => by rw [apply, overwrite_of_not_kept hkept], overwrites_apply.refl block _,
      fun _ => Or.inl⟩

/-! ## The whole topic -/

/-- A block that is higher than another one of the topic has the later timestamp. -/
def Timely (topic : List (TransformedBlock MaticTransferTx)) : Prop :=
  ∀ a ∈ topic, ∀ b ∈ topic, a.blockNumber < b.blockNumber → a.timestamp < b.timestamp

/-- The documents are transfers of blocks of the topic. -/
def Stems (topic : List (TransformedBlock MaticTransferTx)) (documents : Collection) : Prop :=
  ∀ transfer ∈ documents, ∃ block ∈ topic, transfer ∈ map block

/-- Transfers of a timely topic rise. -/
theorem Stems.rising {topic : List (TransformedBlock MaticTransferTx)} (htimely : Timely topic)
    (h : Stems topic s) : Rising s := by
  intro a ha b hb hlt
  obtain ⟨block, hblock, hmem⟩ := h a ha
  obtain ⟨other, hother, hmem'⟩ := h b hb
  obtain ⟨hnumber, htime⟩ := mem_map hmem
  obtain ⟨hnumber', htime'⟩ := mem_map hmem'
  rw [htime, htime']
  exact htimely block hblock other hother (by rwa [← hnumber, ← hnumber'])

/-- The blocks with transfers that no later one of the topic supersedes. -/
def standing (topic : List (TransformedBlock MaticTransferTx)) :
    List (TransformedBlock MaticTransferTx) :=
  branch (·.blockNumber) (topic.filter hasTransfers)

/-- At the end of the topic, however often the consumer has failed or started again, the collection
holds the transfers of the blocks that stand. -/
theorem reaches_collection {topic : List (TransformedBlock MaticTransferTx)}
    (htimely : Timely topic) {c : Consumption Collection} (h : Reaches topic handle [] c)
    (hend : c.place = topic.length) : c.store = (standing topic).flatMap map := by
  have hkept : ∀ block ∈ topic, ∀ documents ok rest, Stems topic documents →
      handle block documents ok rest → Stems topic rest := by
    intro block hblock documents ok rest hstems hhandle transfer hmem
    rcases (handle_spec (hstems.rising htimely) hhandle).2.2 transfer hmem with hold | hnew
    · exact hstems transfer hold
    · exact ⟨block, hblock, hnew⟩
  have hcompletes : Completes apply topic id [] c :=
    h.completes overwrites_apply (I := Stems topic) (fun _ hmem => by cases hmem) hkept
      (fun _ _ _ _ hstems hhandle => (handle_spec (hstems.rising htimely) hhandle).1 rfl)
      (fun _ _ _ _ hstems hhandle => (handle_spec (hstems.rising htimely) hhandle).2.1)
  rw [standing, ← foldl_overwrite fun _ _ hmem => (mem_map hmem).1]
  exact hcompletes.atEnd h.within hend

end ChainIndexer.Transfers
