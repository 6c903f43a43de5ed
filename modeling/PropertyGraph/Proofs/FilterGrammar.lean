import PropertyGraph.Proofs.Faults
import PropertyGraph.Proofs.Growth

/-!
# What filters are given by

Which JSON values are filters, and what these ask for, is said without reading them (`Json.IsFilter`, `Json.Asks`). A
filter is read from exactly those, keeps a node exactly where something that is asked for is met by the node, and is
empty exactly where nothing is asked for (`Filter.filter_grammar`).
-/

namespace PropertyGraph

/-! ## The grammar -/

/-- The operand that a JSON value gives to a comparison: an array of two numbers to `between`, one boolean, number or
text to any other. -/
inductive Comparison.Takes : Comparison → Json → Operand → Prop
  | range (low high : Json.Number) :
      Takes .between (.array [.number low, .number high]) (.range (.ofNumber low) (.ofNumber high))
  | bool {c : Comparison} (hc : c ≠ .between) (b : Bool) : Takes c (.bool b) (.value (.bool b))
  | number {c : Comparison} (hc : c ≠ .between) (n : Json.Number) : Takes c (.number n) (.value (.ofNumber n))
  | string {c : Comparison} (hc : c ≠ .between) (s : String) : Takes c (.string s) (.value (.string s))

namespace Json

/-- Whether a JSON value may stand for what is asked of one field: an object whose names are those of comparisons, each
with null or with something that the comparison takes. -/
def IsFieldFilter (j : Json) : Prop :=
  ∃ comparisons, j.members? = some comparisons ∧ ∀ name operand, comparisons.get? name = some operand →
    ∃ c : Comparison, c.name = name ∧ (operand = .null ∨ ∃ o, c.Takes operand o)

/-- Whether a JSON value may stand for a filter: an object that has null or something to ask of one field under each
name. -/
def IsFilter (j : Json) : Prop :=
  ∃ fields, j.members? = some fields ∧ ∀ field content, fields.get? field = some content →
    content = .null ∨ content.IsFieldFilter

/-- Whether a JSON value asks, under a name, for a comparison of a field with an operand that is not null. -/
def Asks (j : Json) (field name : String) (operand : Json) : Prop :=
  ∃ comparisons, j.get? field = some comparisons ∧ comparisons.get? name = some operand ∧ operand ≠ .null

theorem isNull_iff {j : Json} : j.isNull = true ↔ j = .null := by cases j <;> simp [isNull]

end Json

/-- A map has a content under a name exactly where it has them as an entry. -/
theorem Dict.get?_eq_some_iff {α : Type} {d : Dict α} {name : String} {content : α} :
    d.get? name = some content ↔ (name, content) ∈ d.entries := by
  refine ⟨Json.mem_of_lookup, fun hmem => ?_⟩
  cases hget : d.get? name with
  | none => exact absurd (List.lookup_eq_none_iff.mp hget (name, content) hmem) (by simp)
  | some other =>
    have hsame : (name, other) = (name, content) :=
      List.inj_on_of_nodup_map d.nodup_names (Json.mem_of_lookup hget) hmem rfl
    rw [(Prod.mk.inj hsame).2]

/-- What an object asks for stands in objects of it. -/
theorem Json.asks_iff {j : Json} {fields : Dict Json} (h : j.members? = some fields) {field name : String}
    {operand : Json} :
    j.Asks field name operand ↔
    ∃ content comparisons, (field, content) ∈ fields.entries ∧ content.members? = some comparisons ∧
      (name, operand) ∈ comparisons.entries ∧ operand ≠ .null := by
  simp only [Asks, get?, h, Option.bind_some, Option.bind_eq_some_iff, Dict.get?_eq_some_iff]
  constructor
  · rintro ⟨content, hcontent, ⟨comparisons, hsome, hoperand⟩, hne⟩
    exact ⟨content, comparisons, hcontent, hsome, hoperand, hne⟩
  · rintro ⟨content, comparisons, hcontent, hsome, hoperand, hne⟩
    exact ⟨content, hcontent, ⟨comparisons, hsome, hoperand⟩, hne⟩

/-! ## Reading -/

theorem Comparison.ofName?_eq_some_iff {name : String} {c : Comparison} : ofName? name = some c ↔ c.name = name := by
  constructor
  · intro h
    exact eq_of_beq (List.find?_some (p := fun c : Comparison => c.name == name) h)
  · rintro rfl
    cases c <;> decide

theorem Comparison.name_injective {c d : Comparison} (h : c.name = d.name) : c = d :=
  Option.some.inj ((ofName?_eq_some_iff.mpr h).symm.trans (ofName?_eq_some_iff.mpr rfl))

theorem readBound_eq_ok_iff {field : String} {j : Json} {v : Value} :
    readBound field j = .ok v ↔ ∃ n, j = .number n ∧ .ofNumber n = v := by
  cases j with
  | number n => cases n <;> simp [readBound, Value.ofJson, Value.ofNumber]
  | _ => simp [readBound, Value.ofJson]

/-- An operand is read from what the comparison takes. -/
theorem readOperand_eq_ok_iff {field : String} {c : Comparison} {j : Json} {o : Operand} :
    readOperand field c j = .ok o ↔ c.Takes j o := by
  by_cases hc : c = .between
  · subst hc
    constructor
    · intro h
      rw [readOperand.eq_def, if_pos rfl] at h
      split at h
      next low high =>
        obtain ⟨a, ha, h⟩ := bind_eq_ok_iff.mp h
        obtain ⟨b, hb, h⟩ := bind_eq_ok_iff.mp h
        obtain ⟨m, rfl, rfl⟩ := readBound_eq_ok_iff.mp ha
        obtain ⟨n, rfl, rfl⟩ := readBound_eq_ok_iff.mp hb
        exact Except.ok.inj h ▸ .range m n
      · simp at h
    · intro h
      cases h with
      | range low high =>
        have hbound : ∀ n : Json.Number, readBound field (.number n) = .ok (.ofNumber n) :=
          fun n => readBound_eq_ok_iff.mpr ⟨n, rfl, rfl⟩
        rw [readOperand.eq_def, if_pos rfl]
        dsimp only
        rw [hbound, hbound]
        rfl
      | bool hne | number hne | string hne => exact absurd rfl hne
  · rw [readOperand.eq_def, if_neg hc]
    constructor
    · intro h
      cases j with
      | bool b => exact Except.ok.inj h ▸ .bool hc b
      | number n => cases n <;> exact Except.ok.inj h ▸ .number hc _
      | string s => exact Except.ok.inj h ▸ .string hc s
      | null | array | object => simp [Value.ofJson] at h
    · intro h
      cases h with
      | range => exact absurd rfl hc
      | bool | string => rfl
      | number _ n => cases n <;> rfl

theorem Comparison.Takes.unique {c : Comparison} {j : Json} {o p : Operand} (ho : c.Takes j o) (hp : c.Takes j p) :
    o = p :=
  Except.ok.inj (((@readOperand_eq_ok_iff "" c j o).mpr ho).symm.trans (readOperand_eq_ok_iff.mpr hp))

theorem Comparison.Takes.ne_null {c : Comparison} {j : Json} {o : Operand} (h : c.Takes j o) : j ≠ .null := by
  rintro rfl
  cases h

/-- How the predicates on a field are read, member by member; the name is looked up before the operand is, so that it
is known even above a null. -/
theorem readPredicates_cons_iff {field name : String} {j : Json} {rest : List (String × Json)}
    {predicates : List Predicate} :
    readPredicates field ((name, j) :: rest) = .ok predicates ↔ ∃ c : Comparison, c.name = name ∧
      (j = .null ∧ readPredicates field rest = .ok predicates ∨
        ∃ o more, c.Takes j o ∧ readPredicates field rest = .ok more ∧ ⟨c, o⟩ :: more = predicates) := by
  rw [readPredicates]
  split
  next hnone =>
    simp only [reduceCtorEq, false_iff, not_exists, not_and]
    intro c hname
    rw [Comparison.ofName?_eq_some_iff.mpr hname] at hnone
    exact absurd hnone (by simp)
  next c hc =>
    have hname := Comparison.ofName?_eq_some_iff.mp hc
    split
    next hnull =>
      obtain rfl := Json.isNull_iff.mp hnull
      constructor
      · exact fun h => ⟨c, hname, Or.inl ⟨rfl, h⟩⟩
      · rintro ⟨_, -, ⟨-, h⟩ | ⟨o, more, htakes, -⟩⟩
        · exact h
        · exact absurd rfl htakes.ne_null
    next hnull =>
      rw [bind_eq_ok_iff]
      simp only [bind_eq_ok_iff, readOperand_eq_ok_iff, pure, Except.pure, Except.ok.injEq]
      constructor
      · rintro ⟨o, htakes, more, hmore, rfl⟩
        exact ⟨c, hname, Or.inr ⟨o, more, htakes, hmore, rfl⟩⟩
      · rintro ⟨other, ho, ⟨rfl, -⟩ | ⟨o, more, htakes, hmore, rfl⟩⟩
        · exact absurd rfl hnull
        · obtain rfl := Comparison.name_injective (ho.trans hname.symm)
          exact ⟨o, htakes, more, hmore, rfl⟩

/-- The predicates on a field are read where each member is a comparison with null or with something that it takes. -/
theorem exists_readPredicates_iff {field : String} {members : List (String × Json)} :
    (∃ predicates, readPredicates field members = .ok predicates) ↔
      ∀ name operand, (name, operand) ∈ members →
        ∃ c : Comparison, c.name = name ∧ (operand = .null ∨ ∃ o, c.Takes operand o) := by
  induction members with
  | nil => exact ⟨fun _ _ _ h => absurd h List.not_mem_nil, fun _ => ⟨[], rfl⟩⟩
  | cons member rest ih =>
    obtain ⟨first, j⟩ := member
    simp only [readPredicates_cons_iff, List.mem_cons, Prod.mk.injEq]
    constructor
    · rintro ⟨predicates, c, hname, h⟩ name operand (⟨rfl, rfl⟩ | hmem)
      · rcases h with ⟨hnull, -⟩ | ⟨o, -, htakes, -⟩
        · exact ⟨c, hname, Or.inl hnull⟩
        · exact ⟨c, hname, Or.inr ⟨o, htakes⟩⟩
      · rcases h with ⟨-, hrest⟩ | ⟨-, more, -, hrest, -⟩
        · exact ih.mp ⟨_, hrest⟩ name operand hmem
        · exact ih.mp ⟨_, hrest⟩ name operand hmem
    · intro h
      obtain ⟨c, hname, hfirst⟩ := h first j (Or.inl ⟨rfl, rfl⟩)
      obtain ⟨more, hmore⟩ := ih.mpr fun name operand hmem => h name operand (Or.inr hmem)
      rcases hfirst with hnull | ⟨o, htakes⟩
      · exact ⟨more, c, hname, Or.inl ⟨hnull, hmore⟩⟩
      · exact ⟨_, c, hname, Or.inr ⟨o, more, htakes, hmore, rfl⟩⟩

/-- What predicates are read: those of the comparisons with something that they take. -/
theorem mem_of_readPredicates {field : String} {members : List (String × Json)} {predicates : List Predicate}
    (h : readPredicates field members = .ok predicates) {c : Comparison} {o : Operand} :
    ⟨c, o⟩ ∈ predicates ↔ ∃ operand, (c.name, operand) ∈ members ∧ c.Takes operand o := by
  induction members generalizing predicates with
  | nil =>
    obtain rfl := Except.ok.inj h
    simp
  | cons member rest ih =>
    obtain ⟨first, j⟩ := member
    obtain ⟨d, rfl, ⟨rfl, hrest⟩ | ⟨p, more, htakes, hrest, rfl⟩⟩ := readPredicates_cons_iff.mp h
    · rw [ih hrest]
      refine exists_congr fun operand => and_congr_left fun htakes => ?_
      rw [List.mem_cons, or_iff_right]
      intro heq
      exact htakes.ne_null (Prod.mk.inj heq).2
    · simp only [List.mem_cons, ih hrest, Predicate.mk.injEq, Prod.mk.injEq]
      constructor
      · rintro (⟨rfl, rfl⟩ | ⟨operand, hmem, ho⟩)
        · exact ⟨j, Or.inl ⟨rfl, rfl⟩, htakes⟩
        · exact ⟨operand, Or.inr hmem, ho⟩
      · rintro ⟨operand, ⟨hname, rfl⟩ | hmem, ho⟩
        · obtain rfl := Comparison.name_injective hname
          exact Or.inl ⟨rfl, ho.unique htakes⟩
        · exact Or.inr ⟨operand, hmem, ho⟩

/-- How the field filters of a filter are read, member by member. -/
theorem readFieldFilters_cons_iff {field : String} {j : Json} {rest : List (String × Json)}
    {filters : List FieldFilter} :
    readFieldFilters ((field, j) :: rest) = .ok filters ↔ j = .null ∧ readFieldFilters rest = .ok filters ∨
      ∃ comparisons predicates more, j.members? = some comparisons ∧
        readPredicates field comparisons.entries = .ok predicates ∧
        readFieldFilters rest = .ok more ∧ ⟨field, predicates⟩ :: more = filters := by
  rw [readFieldFilters]
  split
  next hnull =>
    obtain rfl := Json.isNull_iff.mp hnull
    simp [Json.members?]
  next hnull =>
    have hne : j ≠ .null := fun h => hnull (Json.isNull_iff.mpr h)
    split
    next hnone => simp [hnone, hne]
    next comparisons hsome =>
      simp only [bind_eq_ok_iff, hsome, hne, false_and, false_or, pure, Except.pure, Except.ok.injEq, Option.some.injEq]
      constructor
      · rintro ⟨predicates, hpredicates, more, hmore, rfl⟩
        exact ⟨comparisons, predicates, more, rfl, hpredicates, hmore, rfl⟩
      · rintro ⟨_, predicates, more, rfl, hpredicates, hmore, rfl⟩
        exact ⟨predicates, hpredicates, more, hmore, rfl⟩

/-- What may stand for what is asked of one field has predicates on it. -/
theorem Json.isFieldFilter_iff {j : Json} (field : String) : j.IsFieldFilter ↔
    ∃ comparisons predicates, j.members? = some comparisons ∧
      readPredicates field comparisons.entries = .ok predicates := by
  simp only [IsFieldFilter, Dict.get?_eq_some_iff, ← @exists_readPredicates_iff field, exists_and_left]

/-- The field filters of a filter are read where each member is null or asks something of one field. -/
theorem exists_readFieldFilters_iff {members : List (String × Json)} :
    (∃ filters, readFieldFilters members = .ok filters) ↔
    ∀ field content, (field, content) ∈ members → content = .null ∨ content.IsFieldFilter := by
  induction members with
  | nil => exact ⟨fun _ _ _ h => absurd h List.not_mem_nil, fun _ => ⟨[], rfl⟩⟩
  | cons member rest ih =>
    obtain ⟨first, j⟩ := member
    simp only [readFieldFilters_cons_iff, List.mem_cons, Prod.mk.injEq]
    constructor
    · rintro ⟨filters, ⟨hnull, hrest⟩ | ⟨comparisons, predicates, more, hsome, hpredicates, hrest, -⟩⟩ field content
        (⟨rfl, rfl⟩ | hmem)
      · exact Or.inl hnull
      · exact ih.mp ⟨_, hrest⟩ field content hmem
      · exact Or.inr ((Json.isFieldFilter_iff field).mpr ⟨comparisons, predicates, hsome, hpredicates⟩)
      · exact ih.mp ⟨_, hrest⟩ field content hmem
    · intro h
      obtain ⟨more, hmore⟩ := ih.mpr fun field content hmem => h field content (Or.inr hmem)
      rcases h first j (Or.inl ⟨rfl, rfl⟩) with hnull | hj
      · exact ⟨more, Or.inl ⟨hnull, hmore⟩⟩
      · obtain ⟨comparisons, predicates, hsome, hpredicates⟩ := (Json.isFieldFilter_iff first).mp hj
        exact ⟨_, Or.inr ⟨comparisons, predicates, more, hsome, hpredicates, hmore, rfl⟩⟩

/-- What field filters are read: those of the members that are objects. -/
theorem mem_of_readFieldFilters {members : List (String × Json)} {filters : List FieldFilter}
    (h : readFieldFilters members = .ok filters) {f : FieldFilter} :
    f ∈ filters ↔ ∃ content comparisons, (f.field, content) ∈ members ∧ content.members? = some comparisons ∧
      readPredicates f.field comparisons.entries = .ok f.predicates := by
  induction members generalizing filters with
  | nil =>
    obtain rfl := Except.ok.inj h
    simp
  | cons member rest ih =>
    obtain ⟨first, j⟩ := member
    rcases readFieldFilters_cons_iff.mp h with ⟨rfl, hrest⟩ | ⟨found, predicates, more, hfound, hpredicates, hrest, rfl⟩
    · rw [ih hrest]
      refine exists_congr fun content => exists_congr fun comparisons => and_congr_left fun ⟨hsome, _⟩ => ?_
      rw [List.mem_cons, or_iff_right]
      intro heq
      obtain ⟨-, rfl⟩ := Prod.mk.inj heq
      simp [Json.members?] at hsome
    · simp only [List.mem_cons, ih hrest, Prod.mk.injEq]
      constructor
      · rintro (rfl | ⟨content, comparisons, hmem, hread⟩)
        · exact ⟨j, found, Or.inl ⟨rfl, rfl⟩, hfound, hpredicates⟩
        · exact ⟨content, comparisons, Or.inr hmem, hread⟩
      · rintro ⟨content, comparisons, ⟨rfl, rfl⟩ | hmem, hsome, hread⟩
        · obtain rfl := Option.some.inj (hfound.symm.trans hsome)
          obtain rfl := Except.ok.inj (hpredicates.symm.trans hread)
          exact Or.inl rfl
        · exact Or.inr ⟨content, comparisons, hmem, hsome, hread⟩

namespace Filter

variable {j : Json} {f : Filter}

/-- A filter is read from the members of an object. -/
theorem ofJson_eq_ok_iff :
    ofJson j = .ok f ↔ ∃ fields, j.members? = some fields ∧ readFieldFilters fields.entries = .ok f.fields := by
  rw [ofJson]
  split
  next hnone => simp [hnone]
  next fields hsome =>
    rw [hsome]
    cases hread : readFieldFilters fields.entries with
    | error e => simp [Except.map, hread]
    | ok filters =>
      obtain ⟨others⟩ := f
      simp [Except.map, hread]

/-- A filter is read from exactly what may stand for one. -/
theorem exists_ofJson_iff : (∃ f, ofJson j = .ok f) ↔ j.IsFilter := by
  simp only [ofJson_eq_ok_iff, Json.IsFilter, Dict.get?_eq_some_iff, ← exists_readFieldFilters_iff]
  constructor
  · rintro ⟨f, fields, hsome, hread⟩
    exact ⟨fields, hsome, f.fields, hread⟩
  · rintro ⟨fields, hsome, filters, hread⟩
    exact ⟨⟨filters⟩, fields, hsome, hread⟩

/-- Whether a filter has a predicate on a field. -/
def HasPredicate (f : Filter) (field : String) (p : Predicate) : Prop :=
  ∃ filter ∈ f.fields, filter.field = field ∧ p ∈ filter.predicates

/-- The predicates of a filter are those of what is asked for. -/
theorem hasPredicate_of_ofJson (h : ofJson j = .ok f) {field : String} {c : Comparison} {o : Operand} :
    f.HasPredicate field ⟨c, o⟩ ↔ ∃ operand, j.Asks field c.name operand ∧ c.Takes operand o := by
  obtain ⟨fields, hsome, hread⟩ := ofJson_eq_ok_iff.mp h
  simp only [Json.asks_iff hsome]
  constructor
  · rintro ⟨filter, hfilter, rfl, hp⟩
    obtain ⟨content, comparisons, hcontent, hcomparisons, hpredicates⟩ := (mem_of_readFieldFilters hread).mp hfilter
    obtain ⟨operand, hoperand, htakes⟩ := (mem_of_readPredicates hpredicates).mp hp
    exact ⟨operand, ⟨content, comparisons, hcontent, hcomparisons, hoperand, htakes.ne_null⟩, htakes⟩
  · rintro ⟨operand, ⟨content, comparisons, hcontent, hcomparisons, hoperand, -⟩, htakes⟩
    rcases exists_readFieldFilters_iff.mp ⟨_, hread⟩ field content hcontent with rfl | hasks
    · simp [Json.members?] at hcomparisons
    · obtain ⟨found, predicates, hfound, hpredicates⟩ := (Json.isFieldFilter_iff field).mp hasks
      obtain rfl := Option.some.inj (hfound.symm.trans hcomparisons)
      refine ⟨⟨field, predicates⟩, (mem_of_readFieldFilters hread).mpr ⟨content, found, hcontent, hfound, hpredicates⟩,
        rfl, ?_⟩
      exact (mem_of_readPredicates hpredicates).mpr ⟨operand, hoperand, htakes⟩

/-- A filter keeps a node where the value of some field of it satisfies some predicate on that field. -/
theorem keeps_iff {node : Fields} : f.keeps node = true ↔ ∃ field c o v,
    f.HasPredicate field ⟨c, o⟩ ∧ node.lookup field = some v ∧ (Predicate.mk c o).isMatch v = true := by
  rw [keeps, List.any_eq_true]
  constructor
  · rintro ⟨filter, hfilter, hmatch⟩
    split at hmatch
    next v hv =>
      obtain ⟨⟨c, o⟩, hp, hv'⟩ := List.any_eq_true.mp hmatch
      exact ⟨filter.field, c, o, v, ⟨filter, hfilter, rfl, hp⟩, hv, hv'⟩
    · exact absurd hmatch Bool.false_ne_true
  · rintro ⟨_, c, o, v, ⟨filter, hfilter, rfl, hp⟩, hv, hmatch⟩
    refine ⟨filter, hfilter, ?_⟩
    rw [hv]
    exact List.any_eq_true.mpr ⟨⟨c, o⟩, hp, hmatch⟩

/-- A filter is empty where it has no predicate on any field. -/
theorem isEmpty_iff : f.isEmpty = true ↔ ∀ field c o, ¬ f.HasPredicate field ⟨c, o⟩ := by
  rw [isEmpty, List.all_eq_true]
  constructor
  · rintro h field c o ⟨filter, hfilter, -, hp⟩
    rw [List.isEmpty_iff.mp (h filter hfilter)] at hp
    exact List.not_mem_nil hp
  · intro h filter hfilter
    rw [List.isEmpty_iff, List.eq_nil_iff_forall_not_mem]
    rintro ⟨c, o⟩ hp
    exact h filter.field c o ⟨filter, hfilter, rfl, hp⟩

/-- Of what may stand for a filter, every comparison that it asks for takes its operand. -/
theorem takes_of_asks {field name : String} {operand : Json} (hj : j.IsFilter) (hasks : j.Asks field name operand) :
    ∃ c o, Comparison.name c = name ∧ c.Takes operand o := by
  obtain ⟨fields, hsome, hfields⟩ := hj
  obtain ⟨comparisons, hcontent, hoperand, hne⟩ := hasks
  rw [Json.get?, hsome, Option.bind_some] at hcontent
  rw [Json.get?] at hoperand
  obtain ⟨found, hfound, hoperand⟩ := Option.bind_eq_some_iff.mp hoperand
  rcases hfields field comparisons hcontent with rfl | ⟨named, hnamed, hall⟩
  · simp [Json.members?] at hfound
  · obtain rfl := Option.some.inj (hfound.symm.trans hnamed)
    obtain ⟨c, hname, hnull | ⟨o, htakes⟩⟩ := hall name operand hoperand
    · exact absurd hnull hne
    · exact ⟨c, o, hname, htakes⟩

/-- A filter that asks for nothing is empty, and no other. -/
theorem isEmpty_iff_of_ofJson (h : ofJson j = .ok f) :
    f.isEmpty = true ↔ ∀ field name operand, ¬ j.Asks field name operand := by
  rw [isEmpty_iff]
  simp only [hasPredicate_of_ofJson h]
  constructor
  · intro hempty field name operand hasks
    obtain ⟨c, o, rfl, htakes⟩ := takes_of_asks (exists_ofJson_iff.mp ⟨f, h⟩) hasks
    exact hempty field c o ⟨operand, hasks, htakes⟩
  · rintro hnone field c o ⟨operand, hasks, -⟩
    exact hnone field c.name operand hasks

/-- Filters are what their grammar says, and mean what it says. (1) A filter is read exactly from what may stand for
one: an object that has, under each name, null or an object whose names are all those of comparisons, each with null or
with something that it takes, which for `between` is an array of two numbers and for the others one boolean, number or
text. Anything else is refused as input. (2) The filter keeps a node exactly where, for a field and a comparison that
are asked for with an operand, the node has the field and its value satisfies the comparison with that operand. (3) It
is empty exactly where nothing is asked for. -/
theorem filter_grammar (j : Json) :
    ((∃ f, ofJson j = .ok f) ↔ j.IsFilter) ∧
    (¬ j.IsFilter → ∃ fault, ofJson j = .error (.input fault)) ∧
    ∀ f, ofJson j = .ok f →
      (∀ node : Fields, f.keeps node = true ↔
        ∃ field c operand o v, j.Asks field (Comparison.name c) operand ∧ c.Takes operand o ∧
        node.lookup field = some v ∧ (Predicate.mk c o).isMatch v = true) ∧
      (f.isEmpty = true ↔ ∀ field name operand, ¬ j.Asks field name operand) := by
  refine ⟨exists_ofJson_iff, fun hnot => ?_, fun f h => ⟨fun node => ?_, isEmpty_iff_of_ofJson h⟩⟩
  · cases hread : ofJson j with
    | ok f => exact absurd (exists_ofJson_iff.mp ⟨f, hread⟩) hnot
    | error e =>
      obtain ⟨fault, rfl⟩ := input_of_ofJson hread
      exact ⟨fault, rfl⟩
  · rw [keeps_iff]
    simp only [hasPredicate_of_ofJson h]
    constructor
    · rintro ⟨field, c, o, v, ⟨operand, hasks, htakes⟩, hv, hmatch⟩
      exact ⟨field, c, operand, o, v, hasks, htakes, hv, hmatch⟩
    · rintro ⟨field, c, operand, o, v, hasks, htakes, hv, hmatch⟩
      exact ⟨field, c, o, v, ⟨operand, hasks, htakes⟩, hv, hmatch⟩

end Filter

namespace Sample

/-- Whose name begins with a G, or who is between 18 and 30. -/
def asked : Json :=
  .object [("name", .object [("contains", .null), ("beginsWith", .string "G")]),
    ("age", .object [("between", .array [.int 18, .int 30])]),
    ("city", .null)]

/-- That filter is read, and keeps Gus for his name although he is older. Where `between` has one bound, it is not
read. -/
theorem gus_is_asked_for :
    (∃ f, Filter.ofJson asked = .ok f ∧ f.isEmpty = false ∧
      f.keeps [("age", .int 40), ("name", .string "Gus")] = true) ∧
    ∃ fault, Filter.ofJson (.object [("age", .object [("between", .array [.int 18])])]) = .error (.input fault) := by
  constructor
  · obtain ⟨f, hread⟩ : ∃ f, Filter.ofJson asked = .ok f := ⟨_, rfl⟩
    obtain ⟨hkeeps, hempty⟩ := (Filter.filter_grammar asked).2.2 f hread
    have hasks : asked.Asks "name" "beginsWith" (.string "G") := ⟨_, rfl, rfl, nofun⟩
    have htakes : Comparison.beginsWith.Takes (.string "G") (.value (.string "G")) := .string (by decide) "G"
    refine ⟨f, hread, Bool.eq_false_iff.mpr fun h => hempty.mp h _ _ _ hasks, ?_⟩
    exact (hkeeps _).mpr ⟨"name", .beginsWith, _, _, .string "Gus", hasks, htakes, rfl, by decide +kernel⟩
  · refine (Filter.filter_grammar _).2.1 fun h => ?_
    have hasks : (Json.object [("age", .object [("between", .array [.int 18])])]).Asks "age" "between"
        (.array [.int 18]) :=
      ⟨_, rfl, rfl, nofun⟩
    obtain ⟨c, o, hname, htakes⟩ := Filter.takes_of_asks h hasks
    obtain rfl : c = .between := Comparison.name_injective hname
    cases htakes

end Sample

end PropertyGraph
