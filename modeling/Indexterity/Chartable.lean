import Indexterity.Runs
import Indexterity.Library.Keyed

/-!
# Chartable: the collections the latency charts are sent

`chartableNamespaces` of `analysis/latency.ts`. Half of the places are for the collections with
most read points, half for those with most write points, and what is left is filled up by points.
The chosen stand in a map by their joined name.
-/

namespace Indexterity

open Library

structure ChartEvidence where
  database : String
  collection : String
  readPoints : Nat
  writePoints : Nat
  points : Nat
deriving DecidableEq

def namespaceOf (evidence : ChartEvidence) : String :=
  evidence.database ++ "." ++ evidence.collection

variable (host : Host)

def rankedBy (count : ChartEvidence → Nat) (evidence : List ChartEvidence) : List ChartEvidence :=
  evidence.insertionSort fun a b => count b < count a ∨
    count a = count b ∧ host.localeCompare (namespaceOf a) (namespaceOf b) ≤ 0

def topByMetric (evidence : List ChartEvidence) (drawable : ChartEvidence → Nat) (limit : Nat) :
    List ChartEvidence :=
  (rankedBy host drawable (evidence.filter fun entry => 0 < drawable entry)).take limit

/-- The last loop of `chartableNamespaces`. -/
def topUp (limit : Nat) : List ChartEvidence → List ChartEvidence → List ChartEvidence
  | chosen, [] => chosen
  | chosen, entry :: rest =>
    if limit ≤ chosen.length then chosen else topUp limit (setEntry namespaceOf chosen entry) rest

def chartableNamespaces (evidence : List ChartEvidence) (limit : Nat) : List ChartEvidence :=
  let perMetric := max 1 (limit / 2)
  let chosen := entries namespaceOf (topByMetric host evidence ChartEvidence.readPoints perMetric ++
    topByMetric host evidence ChartEvidence.writePoints perMetric)
  topUp limit chosen (rankedBy host ChartEvidence.points evidence)

/-- What a chart is sent: as many collections as fit, with the first of either metric. -/
structure Charted (evidence : List ChartEvidence) (limit : Nat) (sent : List ChartEvidence) :
    Prop where
  length : sent.length = min limit evidence.length
  nodup : sent.Nodup
  subset : sent ⊆ evidence
  reads : topByMetric host evidence ChartEvidence.readPoints (limit / 2) ⊆ sent
  writes : topByMetric host evidence ChartEvidence.writePoints (limit / 2) ⊆ sent

theorem topUp_eq {limit : Nat} {rest written : List ChartEvidence}
    (h : (entries namespaceOf written).length ≤ limit) :
    ∃ more, more <+: rest ∧
      topUp limit (entries namespaceOf written) rest = entries namespaceOf (written ++ more) ∧
      (entries namespaceOf (written ++ more)).length ≤ limit ∧
      ((entries namespaceOf (written ++ more)).length = limit ∨ more = rest) := by
  induction rest generalizing written with
  | nil => exact ⟨[], List.nil_prefix, by simp [topUp], by simpa using h, .inr rfl⟩
  | cons entry rest ih =>
    rw [topUp]
    split
    · rename_i hfull
      exact ⟨[], List.nil_prefix, by simp, by simpa using h, .inl (by simpa using le_antisymm h hfull)⟩
    · rename_i hroom
      rw [← entries_concat]
      have hle := length_setEntry_le namespaceOf (entries namespaceOf written) entry
      rw [← entries_concat] at hle
      obtain ⟨more, hmore, heq, hlength, hdone⟩ := ih (hle.trans (not_le.mp hroom))
      rw [List.append_assoc, List.singleton_append] at heq hlength hdone
      exact ⟨entry :: more, List.cons_prefix_cons.mpr ⟨rfl, hmore⟩, heq, hlength,
        hdone.imp_right (congrArg _)⟩

section Chosen
variable {host} {evidence : List ChartEvidence}

theorem mem_rankedBy {count : ChartEvidence → Nat} {entry : ChartEvidence} :
    entry ∈ rankedBy host count evidence ↔ entry ∈ evidence :=
  List.mem_insertionSort _

theorem topByMetric_subset {drawable : ChartEvidence → Nat} {limit : Nat} :
    topByMetric host evidence drawable limit ⊆ evidence := fun _ h =>
  (List.mem_filter.mp (mem_rankedBy.mp (List.mem_of_mem_take h))).1

/-- With a name for each, nothing that is written is replaced. -/
theorem mem_entries_of_nodup (h : (evidence.map namespaceOf).Nodup) {written : List ChartEvidence}
    (hsub : written ⊆ evidence) {entry : ChartEvidence} :
    entry ∈ entries namespaceOf written ↔ entry ∈ written := by
  rw [mem_entries_iff, lookupLast_eq_some_iff, and_iff_left rfl]
  exact fun a ha b hb heq => List.inj_on_of_nodup_map h (hsub ha) (hsub hb) heq

/-- What is sent are the entries written until the places are filled or nothing is left. -/
theorem chartableNamespaces_eq {limit : Nat} (hlimit : 2 ≤ limit) :
    ∃ written, chartableNamespaces host evidence limit = entries namespaceOf written ∧
      written ⊆ evidence ∧
      topByMetric host evidence ChartEvidence.readPoints (limit / 2) ⊆ written ∧
      topByMetric host evidence ChartEvidence.writePoints (limit / 2) ⊆ written ∧
      (entries namespaceOf written).length ≤ limit ∧
      ((entries namespaceOf written).length = limit ∨ evidence ⊆ written) := by
  have hhalf : max 1 (limit / 2) = limit / 2 := by omega
  set first := topByMetric host evidence ChartEvidence.readPoints (limit / 2) ++
    topByMetric host evidence ChartEvidence.writePoints (limit / 2) with hfirst
  have hlength : (entries namespaceOf first).length ≤ limit := by
    refine (length_entries_le namespaceOf first).trans ?_
    rw [hfirst, List.length_append, topByMetric, topByMetric, List.length_take, List.length_take]
    omega
  obtain ⟨more, hmore, heq, hle, hdone⟩ := @topUp_eq limit
    (rankedBy host ChartEvidence.points evidence) _ hlength
  refine ⟨first ++ more, ?_, ?_, ?_, ?_, hle, hdone.imp_right fun hall => ?_⟩
  · rw [← heq, chartableNamespaces, hhalf]
  · refine List.append_subset.mpr ⟨List.append_subset.mpr ⟨topByMetric_subset, topByMetric_subset⟩, ?_⟩
    exact fun _ h => mem_rankedBy.mp (hmore.subset h)
  · exact fun _ h => List.mem_append_left _ (List.mem_append_left _ h)
  · exact fun _ h => List.mem_append_left _ (List.mem_append_right _ h)
  · exact fun _ h => List.mem_append_right _ (hall ▸ mem_rankedBy.mpr h)

end Chosen

/-- The charts are sent what they should be, whatever the limit, exactly where no two
collections have the same joined name. -/
theorem chartableNamespaces_iff (evidence : List ChartEvidence) :
    (∀ limit, 2 ≤ limit →
      Charted host evidence limit (chartableNamespaces host evidence limit)) ↔
      (evidence.map namespaceOf).Nodup := by
  constructor
  · intro h
    obtain ⟨hlength, hnodup, hsub, -, -⟩ := h (evidence.length + 2) (Nat.le_add_left 2 _)
    obtain ⟨written, heq, -⟩ := @chartableNamespaces_eq host evidence _ (Nat.le_add_left 2 _)
    have hperm := (List.subperm_of_subset hnodup hsub).perm_of_length_le (by omega)
    rw [heq] at hperm
    exact (hperm.map namespaceOf).nodup_iff.mp (nodup_entries namespaceOf written)
  · intro hnames limit hlimit
    obtain ⟨written, heq, hsub, hreads, hwrites, hle, hdone⟩ :=
      @chartableNamespaces_eq host evidence _ hlimit
    have hmem := @mem_entries_of_nodup evidence hnames written hsub
    have hnodup := (nodup_entries namespaceOf written).of_map
    have hsent : entries namespaceOf written ⊆ evidence := fun _ h => hsub (hmem.mp h)
    have hfit := (List.subperm_of_subset hnodup hsent).length_le
    rw [heq]
    refine ⟨?_, hnodup, hsent, fun _ h => hmem.mpr (hreads h), fun _ h => hmem.mpr (hwrites h)⟩
    rcases hdone with hfull | hall
    · omega
    · have hback := List.subperm_of_subset (List.Nodup.of_map _ hnames) fun _ h => hmem.mpr (hall h)
      have := hback.length_le
      omega

/-- Two collections of one joined name: one of them stands in the other's place. -/
theorem chartableNamespaces_joined :
    chartableNamespaces decimalHost [⟨"a", "b.c.d", 5, 0, 5⟩, ⟨"a.b", "c.d", 3, 0, 3⟩] 2 =
      [⟨"a.b", "c.d", 3, 0, 3⟩] := by
  decide

end Indexterity
