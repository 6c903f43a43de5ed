import PropertyGraph.Settings.Basic

/-!
# What valid settings promise

Settings that break no rule keep every size between the bounds that the store and the engine rely on.
-/

namespace PropertyGraph

namespace Settings

variable {settings : Settings}

theorem fault_eq_none (h : settings.validate = .ok ()) {fault : Option SettingsFault} (hmem : fault ∈ settings.faults) :
    fault = none := by
  rw [validate] at h
  split at h
  · simp at h
  next hnone => exact List.findSome?_eq_none_iff.mp hnone fault hmem

/-- A size that must be in a range is in it. -/
theorem range_of_validate (h : settings.validate = .ok ()) (name : String) {most value : Nat}
    (hmem : rangeFault? name most value ∈ settings.faults) : 0 < value ∧ value ≤ most := by
  have hnone := fault_eq_none h hmem
  rw [rangeFault?, ite_eq_right_iff] at hnone
  constructor
  · refine Nat.pos_of_ne_zero fun hzero => ?_
    exact absurd (hnone (Or.inl hzero)) (Option.some_ne_none _)
  · refine Nat.le_of_not_lt fun hmany => ?_
    exact absurd (hnone (Or.inr hmany)) (Option.some_ne_none _)

/-- A limit that must be positive is. -/
theorem positive_of_validate (h : settings.validate = .ok ()) (name : String) {value : Nat}
    (hmem : positiveFault? name value ∈ settings.faults) : 0 < value := by
  have hnone := fault_eq_none h hmem
  rw [positiveFault?, ite_eq_right_iff] at hnone
  refine Nat.pos_of_ne_zero fun hzero => ?_
  exact absurd (hnone hzero) (Option.some_ne_none _)

/-- Settings that break no rule ask for a batch of keys that the store takes, and for pages that are not empty. -/
theorem ranges_of_validate (h : settings.validate = .ok ()) :
    (0 < settings.query.getBatchSize ∧ settings.query.getBatchSize ≤ Store.mostGets) ∧
    0 < settings.query.queryAllLimit :=
  ⟨range_of_validate h "query.get_batch_size" (by simp only [faults, List.mem_cons, true_or, or_true]),
    positive_of_validate h "query.query_all_limit" (by simp only [faults, List.mem_cons, true_or, or_true])⟩

theorem batchSize_of_validate (h : settings.validate = .ok ()) :
    0 < settings.write.batchSize ∧ settings.write.batchSize ≤ Store.mostWrites :=
  range_of_validate h "write.batch_size" (by simp only [faults, List.mem_cons, true_or, or_true])

theorem singularLimit_of_validate (h : settings.validate = .ok ()) : 0 < settings.query.singularLimit :=
  positive_of_validate h "query.singular_limit" (by simp only [faults, List.mem_cons, true_or, or_true])

/-- Settings that break no rule ask for a page that is not empty in a plural traversal. -/
theorem defaultLimit_of_validate (h : settings.validate = .ok ()) : 0 < settings.query.defaultLimit :=
  positive_of_validate h "query.default_limit" (by simp only [faults, List.mem_cons, true_or, or_true])

/-- Settings that break no rule give a deletion a grace window that is not negative. -/
theorem graceMinutes_of_validate (h : settings.validate = .ok ()) : 0 ≤ settings.delete.graceMinutes := by
  have hmem : (if settings.delete.graceMinutes < 0 then some .negativeGrace else none) ∈ settings.faults := by
    simp only [faults, List.mem_cons, true_or, or_true]
  have hnone := fault_eq_none h hmem
  rw [ite_eq_right_iff] at hnone
  exact Std.not_lt.mp fun hneg => Option.some_ne_none _ (hnone hneg)

end Settings

end PropertyGraph
