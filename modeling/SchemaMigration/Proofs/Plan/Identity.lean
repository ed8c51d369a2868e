import SchemaMigration.Proofs.Plan.Rearrangement

/-! # The difference of a document from itself

A valid document differs from itself in nothing. Unlike for a rearrangement, its models may have
several indexes of one name: the same one of them counts on both sides.
-/

namespace SchemaMigration

open Sql (Index)

section ByName

variable {α : Type} {name : α → String}

theorem nodup_names_placed {known : List α} (h : (known.map name).Nodup) (a : α) :
    ((placed name known a).map name).Nodup := by
  by_cases hmem : name a ∈ known.map name
  · have hany : (known.any fun b => name b == name a) = true := by
      obtain ⟨b, hb, heq⟩ := List.mem_map.mp hmem
      exact List.any_eq_true.mpr ⟨b, hb, beq_iff_eq.mpr heq⟩
    have hsame : (placed name known a).map name = known.map name := by
      rw [placed, if_pos hany, List.map_map]
      refine List.map_congr_left fun b _ => ?_
      by_cases hb : name b = name a <;> simp [hb]
    rwa [hsame]
  · rw [placed_of_notMem hmem, List.map_append, List.map_singleton, List.nodup_append]
    refine ⟨h, List.nodup_singleton _, ?_⟩
    intro n hn last hlast heq
    rw [List.mem_singleton.mp hlast] at heq
    exact hmem (heq ▸ hn)

/-- Of each name one member is left. -/
theorem nodup_names_lastByName (as : List α) : ((lastByName name as).map name).Nodup := by
  suffices hfold : ∀ known : List α, (known.map name).Nodup →
      ((as.foldl (placed name) known).map name).Nodup from hfold [] .nil
  induction as with
  | nil => exact fun known h => h
  | cons a as ih => exact fun known h => ih _ (nodup_names_placed h a)

end ByName

theorem indexDifference_self (indexes : List Index) : indexDifference indexes indexes = [] := by
  have hnodup : ((lastByName Index.name indexes).map Index.name).Nodup :=
    nodup_names_lastByName indexes
  have hfind : ∀ index ∈ lastByName Index.name indexes,
      withName? Index.name (lastByName Index.name indexes) index.name = some index :=
    fun index hindex => find?_eq_some_of_nodup hnodup hindex
  unfold indexDifference
  rw [List.append_eq_nil_iff]
  constructor
  · refine List.flatMap_eq_nil_iff.mpr fun index hindex => ?_
    simp [indexChanges, hfind index hindex]
  · refine List.map_eq_nil_iff.mpr (List.filter_eq_nil_iff.mpr fun index hindex => ?_)
    simp [hfind index hindex]

theorem Model.Rearranges.refl (m : Model) : m.Rearranges m :=
  ⟨rfl, .refl _, rfl⟩

/-- No changes lead from a valid document to itself. -/
theorem Document.difference_self {d : Document} (hvalid : d.validate = .ok ()) :
    d.difference d = .ok [] := by
  have hnames := modelNames_nodup hvalid
  refine difference_eq_ok_iff.mpr ⟨hvalid, d.models.map fun _ => [], ?_, ?_⟩
  · rw [List.forall₂_map_right_iff]
    refine List.forall₂_same.mpr fun m hm => ?_
    rw [modelChanges_of_some hvalid (find?_eq_some_of_nodup hnames hm),
      (Model.Rearranges.refl m).alteration_indexes rfl (fieldNames_nodup hvalid hm),
      indexDifference_self]
  · have hkept : (lastByName (·.name.name) d.models).filter
        (fun m => !d.isModel m.name.name) = [] := by
      refine List.filter_eq_nil_iff.mpr fun m hm => ?_
      have hmem : d.isModel m.name.name = true :=
        isModel_iff.mpr ⟨m, mem_of_mem_lastByName hm, rfl⟩
      simp [hmem]
    rw [hkept]
    simp

end SchemaMigration
