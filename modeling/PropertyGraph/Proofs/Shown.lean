import PropertyGraph.Proofs.Arrivals
import PropertyGraph.Proofs.Faults
import PropertyGraph.Proofs.FilteredPath
import PropertyGraph.Proofs.FullScan

/-!
# What answers can show

Whatever is read along a side lies along it: a page has only neighbors that are linked to its root, from whatever
cursor, under whatever limit and through whatever index it is read (`EdgeReader.neighbors_subset_of_page`). A look-up
finds only live nodes of the ids that were asked for, whatever requests are throttled (`mem_nodes_of_hydrate`). So all
that a traversal of the engine can show are live nodes to which the root is linked
(`Engine.mem_shown_of_connectionPlural`, `Engine.mem_shown_of_connection`).
-/

namespace PropertyGraph

/-! ## Reading along a side -/

/-- Live edges that were read are those of the rows. -/
theorem eq_of_liveEdges {now : Int64} {rows : List Row} {edges : List Edge} (h : liveEdges now rows = .ok edges) :
    edges = rows.filterMap (Row.liveEdge? now) := by
  have hrecords : ∀ row ∈ rows, row.attributes.IsRecord := by
    induction rows generalizing edges with
    | nil => exact fun _ hrow => absurd hrow List.not_mem_nil
    | cons row rest ih =>
      rw [liveEdges] at h
      have hrest : ∃ others, liveEdges now rest = .ok others := by
        cases hothers : liveEdges now rest with
        | ok others => exact ⟨others, rfl⟩
        | error e =>
          rw [hothers] at h
          split at h
          · exact absurd h (by simp)
          · exact absurd h (by simp)
          · split at h <;> exact absurd h (by simp [Except.map])
      obtain ⟨others, hothers⟩ := hrest
      intro other ho
      rcases List.mem_cons.mp ho with rfl | ho
      · cases hrecord : Record.ofAttributes other.attributes with
        | ok record => exact ⟨record, hrecord⟩
        | error e =>
          rw [hrecord] at h
          exact absurd h (by simp)
      · exact ih hothers other ho
  exact Except.ok.inj (h.symm.trans (liveEdges_eq hrecords))

/-- Distinct ids are among the ids, and none is empty. -/
theorem mem_of_mem_distinctIds {id : String} {ids seen : List String} (h : id ∈ distinctIds seen ids) :
    id ∈ ids ∧ id ≠ "" := by
  induction ids generalizing seen with
  | nil => exact absurd h List.not_mem_nil
  | cons first rest ih =>
    rw [distinctIds] at h
    split at h
    · exact (ih h).imp_left (List.mem_cons_of_mem _)
    next hnew =>
      rcases List.mem_cons.mp h with rfl | h
      · exact ⟨List.mem_cons_self .., fun hempty => hnew (Or.inl hempty)⟩
      · exact (ih h).imp_left (List.mem_cons_of_mem _)

/-- The neighbors among some edges are among the far ends of more of them. -/
theorem EdgeSide.neighbors_subset (side : EdgeSide) {edges more : List Edge} (h : edges ⊆ more) :
    side.neighbors edges ⊆ side.farEnds more := by
  intro id hid
  obtain ⟨hmem, hne⟩ := mem_of_mem_distinctIds hid
  obtain ⟨e, he, rfl⟩ := List.mem_map.mp hmem
  obtain ⟨he, hname⟩ := List.mem_filter.mp he
  exact List.mem_filter.mpr ⟨List.mem_map_of_mem (List.mem_filter.mpr ⟨h he, hname⟩), decide_eq_true hne⟩

namespace EdgeReader

variable {r : EdgeReader} {s : Store} {root : String} {side : EdgeSide} {limit : Nat}

/-- The rows of a page along a side are along it. -/
theorem mem_along_of_query {key : Option StartKey} {page : PropertyGraph.Page}
    (h : (s.query r.table (r.query root side limit key)).1 = .ok page) {row : Row} (hrow : row ∈ page.rows) :
    row ∈ (s.tableOf r.table).along root side none := by
  rcases s.query_cases r.table (r.query root side limit key) with hq | hq
  · rw [hq, Table.query] at h
    cases hresolve : (r.query root side limit key).resolve s.indexName with
    | error e => simp [hresolve, Except.map] at h
    | ok found =>
      obtain ⟨view, start⟩ := found
      obtain rfl := view_of_resolve hresolve
      rw [hresolve] at h
      rw [← Except.ok.inj h] at hrow
      have hahead := List.mem_of_mem_take (List.mem_filter.mp hrow).1
      rw [ahead_query] at hahead
      exact Table.mem_along.mpr ⟨Table.mem_rows_of_mem_along hahead, Table.isAlong_of_mem_along hahead⟩
  · rw [hq] at h
    rw [← Except.ok.inj h] at hrow
    exact absurd hrow List.not_mem_nil

/-- The edges of a page along a side are along it. -/
theorem edges_subset_of_fetch {key : Option StartKey} {f : EdgeFetch}
    (h : (r.fetch s (r.query root side limit key)).1 = .ok f) :
    f.edges ⊆ (s.tableOf r.table).edgesAlong r.now root side none := by
  rw [fetch, Store.storage_query] at h
  dsimp only at h
  cases hquery : (s.query r.table (r.query root side limit key)).1 with
  | error e => simp [hquery, fetched] at h
  | ok page =>
    rw [hquery, fetched] at h
    cases hedges : liveEdges r.now page.rows with
    | error e => simp [hedges, Except.map] at h
    | ok edges =>
      simp only [hedges, Except.map, Except.ok.injEq] at h
      subst h
      intro e he
      rw [eq_of_liveEdges hedges] at he
      obtain ⟨row, hrow, hlive⟩ := List.mem_filterMap.mp he
      exact List.mem_filterMap.mpr ⟨row, mem_along_of_query hquery hrow, hlive⟩

/-- The edges of all pages along a side are along it. -/
theorem edges_subset_of_edgesFrom (r : EdgeReader) (root : String) (side : EdgeSide) (limit : Nat) (s : Store)
    (q : Query) (key : Option StartKey) (hq : q = r.query root side limit key) {edges : List Edge}
    (h : (r.edgesFrom s q).1 = .ok edges) : edges ⊆ (s.tableOf r.table).edgesAlong r.now root side none := by
  induction s, q using @EdgeReader.edgesFrom.induct Store _ r generalizing key edges with
  | case1 s q e he =>
    rw [edgesFrom_error he] at h
    exact absurd h (by simp)
  | case2 s q f hf hlast =>
    rw [edgesFrom_last hf hlast] at h
    subst hq
    exact Except.ok.inj h ▸ edges_subset_of_fetch hf
  | case3 s q f hf next hnext _ _ _ ih =>
    rw [edgesFrom_next hf hnext] at h
    subst hq
    cases hrest : (r.edgesFrom (r.fetch s (r.query root side limit key)).2
        { r.query root side limit key with startAfter := some next }).1 with
    | error e => simp [hrest, Except.map] at h
    | ok others =>
      simp only [hrest, Except.map, Except.ok.injEq] at h
      rw [← h]
      exact List.append_subset.mpr ⟨edges_subset_of_fetch hf, ih (some next) rfl hrest⟩

/-- A page has only neighbors that are linked to its root, whatever its cursor and its limit are. -/
theorem neighbors_subset_of_page {cursor : Option String} {page : EdgePage} {s' : Store}
    (h : r.page s root side limit cursor = (.ok page, s')) :
    page.neighbors ⊆ (s.tableOf r.table).neighborsAlong r.now root side none := by
  have hok : (r.page s root side limit cursor).1 = .ok page := by rw [h]
  rw [EdgeReader.page] at hok
  split at hok
  · exact absurd hok (by simp)
  next key _ =>
    dsimp only at hok
    cases hfetch : (r.fetch s (r.query root side limit key)).1 with
    | error e => simp [hfetch, Except.map] at hok
    | ok f =>
      simp only [hfetch, Except.map, Except.ok.injEq] at hok
      rw [← hok]
      exact side.neighbors_subset (edges_subset_of_fetch hfetch)

/-- The traversal of all pages has only neighbors that are linked to its root. -/
theorem neighbors_subset_of_all {cursor : Option String} {page : EdgePage} {s' : Store}
    (h : r.all s root side limit cursor = (.ok page, s')) :
    page.neighbors ⊆ (s.tableOf r.table).neighborsAlong r.now root side none := by
  have hok : (r.all s root side limit cursor).1 = .ok page := by rw [h]
  rw [EdgeReader.all] at hok
  split at hok
  · exact absurd hok (by simp)
  next key _ =>
    dsimp only at hok
    cases hedges : (r.edgesFrom s (r.query root side limit key)).1 with
    | error e => simp [hedges, Except.map] at hok
    | ok edges =>
      simp only [hedges, Except.map, Except.ok.injEq] at hok
      rw [← hok]
      exact side.neighbors_subset (edges_subset_of_edgesFrom r root side limit s _ key rfl hedges)

/-- Reading until a neighbor is found finds only neighbors that are linked to the root. -/
theorem subset_of_firstNeighbors (r : EdgeReader) (root : String) (side : EdgeSide) (limit : Nat) (s : Store)
    (q : Query) (key : Option StartKey) (hq : q = r.query root side limit key) {ids : List String}
    (h : (r.firstNeighbors s side q).1 = .ok ids) :
    ids ⊆ (s.tableOf r.table).neighborsAlong r.now root side none := by
  induction s, q using @EdgeReader.firstNeighbors.induct Store _ r side generalizing key ids with
  | case1 s q e he =>
    rw [firstNeighbors_error he] at h
    exact absurd h (by simp)
  | case2 s q f hf hlast =>
    rw [firstNeighbors_stop hf (Or.inl hlast)] at h
    subst hq
    exact Except.ok.inj h ▸ side.neighbors_subset (edges_subset_of_fetch hf)
  | case3 s q f hf next hnext hempty ih =>
    rw [firstNeighbors_next hf hnext hempty] at h
    subst hq
    exact ih (some next) rfl h
  | case4 s q f hf next hnext hsome =>
    rw [firstNeighbors_stop hf (Or.inr hsome)] at h
    subst hq
    exact Except.ok.inj h ▸ side.neighbors_subset (edges_subset_of_fetch hf)

theorem tableOf_page (r : EdgeReader) (s : Store) (root : String) (side : EdgeSide) (limit : Nat)
    (cursor : Option String) (table : String) :
    (r.page s root side limit cursor).2.tableOf table = s.tableOf table := by
  rw [EdgeReader.page]
  split <;> rfl

/-- Reading the edges of all pages changes no table. -/
theorem tableOf_edgesFrom (r : EdgeReader) (s : Store) (q : Query) (table : String) :
    (r.edgesFrom s q).2.tableOf table = s.tableOf table := by
  induction s, q using @EdgeReader.edgesFrom.induct Store _ r with
  | case1 s q e he => rw [edgesFrom_error he]; rfl
  | case2 s q f hf hlast => rw [edgesFrom_last hf hlast]; rfl
  | case3 s q f hf next hnext _ _ _ ih => rw [edgesFrom_next hf hnext]; exact ih

/-- Reading all pages changes no table. -/
theorem tableOf_all (r : EdgeReader) (s : Store) (root : String) (side : EdgeSide) (limit : Nat)
    (cursor : Option String) (table : String) : (r.all s root side limit cursor).2.tableOf table = s.tableOf table := by
  rw [EdgeReader.all]
  split
  · rfl
  · exact r.tableOf_edgesFrom s _ table

/-- Reading until a neighbor is found changes no table. -/
theorem tableOf_firstNeighbors (r : EdgeReader) (side : EdgeSide) (s : Store) (q : Query) (table : String) :
    (r.firstNeighbors s side q).2.tableOf table = s.tableOf table := by
  induction s, q using @EdgeReader.firstNeighbors.induct Store _ r side with
  | case1 s q e he => rw [firstNeighbors_error he]; rfl
  | case2 s q f hf hlast => rw [firstNeighbors_stop hf (Or.inl hlast)]; rfl
  | case3 s q f hf next hnext hempty ih => rw [firstNeighbors_next hf hnext hempty]; exact ih
  | case4 s q f hf next hnext hsome => rw [firstNeighbors_stop hf (Or.inr hsome)]; rfl

end EdgeReader

/-! ## Looking up -/

/-- A look-up finds only live nodes of the ids that were asked for. -/
theorem mem_nodes_of_hydrate {s : Store} {table : String} {size : Nat} {now : Int64} {ids : List String} {n : Node}
    (h : n ∈ (hydrate s table size now ids).1.nodes) : n.id ∈ ids ∧ (s.tableOf table).liveNode? now n.id = some n := by
  obtain ⟨arrived, hgathers, harrived, hydrated⟩ := hydrateChunks_gathers s table now (chunks size ids)
  rw [hydrate, hydrated, Hydrated.nodes_ofAnswers now hgathers.isFrom_of_start] at h
  obtain ⟨id, hid, hlive⟩ := List.mem_filterMap.mp h
  obtain rfl := Table.id_of_liveNode? hlive
  have hall := (BatchAnswer.kept_append_lost arrived).mem_iff.mp (List.mem_append_left _ hid)
  rw [harrived, chunks_flatten] at hall
  exact ⟨hall, hlive⟩

/-! ## Traversals of the engine -/

/-- What callers see of some ids they see of more. -/
theorem Table.shown_subset (t : Table) (now : Int64) {ids more : List String} (h : ids ⊆ more) :
    t.shown now ids ⊆ t.shown now more := by
  intro out hout
  obtain ⟨n, hn, rfl⟩ := List.mem_map.mp hout
  obtain ⟨id, hid, hnode⟩ := List.mem_filterMap.mp hn
  exact List.mem_map_of_mem (List.mem_filterMap.mpr ⟨id, h hid, hnode⟩)

namespace Engine

variable {e : Engine} {s : Store} {now : Int64} {r : ConnectionRequest} {out : Fields}

theorem narrowed_subset (limit : Nat) (filter : Option Filter) (nodes : List Fields) :
    narrowed limit filter nodes ⊆ nodes := by
  cases filter with
  | none => exact List.Subset.refl nodes
  | some f => exact fun _ h => (List.mem_filter.mp (List.mem_of_mem_take h)).1

/-- What callers see of nodes that were looked up are live nodes of the ids that were asked for. -/
theorem mem_shown_of_look {ids : List String} {n : Node} (h : n ∈ orderByIds ids (e.look s now ids).1.nodes) :
    n.toOutput ∈ (s.tableOf e.table).shown now ids := by
  obtain ⟨hid, hnode⟩ := mem_nodes_of_hydrate ((orderByIds_perm ids _).mem_iff.mp h)
  exact List.mem_map_of_mem (List.mem_filterMap.mpr ⟨n.id, hid, hnode⟩)

/-- The neighbors that a traversal reads are linked to its root, and reading them changes no table. -/
theorem neighbors_subset {side : EdgeSide} {root : String} {limit : Nat} {filter : Option Filter} {page : EdgePage}
    {s' : Store} (h : e.neighbors s now r side root limit filter = (.ok page, s')) :
    page.neighbors ⊆ (s.tableOf e.table).neighborsAlong now root side none ∧
    ∀ table, s'.tableOf table = s.tableOf table := by
  cases filter with
  | none =>
    rw [neighbors] at h
    have htables := (e.reader now).tableOf_page s root side limit r.arguments.cursor
    rw [h] at htables
    exact ⟨EdgeReader.neighbors_subset_of_page (r := e.reader now) h, htables⟩
  | some f =>
    rw [neighbors] at h
    have htables := (e.reader now).tableOf_all s root side e.settings.query.queryAllLimit r.arguments.cursor
    rw [h] at htables
    exact ⟨EdgeReader.neighbors_subset_of_all (r := e.reader now) h, htables⟩

/-- All that a plural traversal shows are live nodes to which its root is linked, whatever its cursor, limit and filter
are and whatever requests are throttled. -/
theorem mem_shown_of_connectionPlural (h : out ∈ (e.connectionPlural s now r).1.data.edges) :
    ∃ side root, e.resolve r = .ok (side, root) ∧
      out ∈ (s.tableOf e.table).shown now ((s.tableOf e.table).neighborsAlong now root side none) := by
  rw [connectionPlural] at h
  split at h
  · exact absurd h List.not_mem_nil
  next side root hresolve =>
    refine ⟨side, root, hresolve, ?_⟩
    split at h
    · exact absurd h List.not_mem_nil
    next filter _ =>
      dsimp only at h
      split at h
      · exact absurd h List.not_mem_nil
      next page s' hread =>
        obtain ⟨n, hn, rfl⟩ := List.mem_map.mp (narrowed_subset _ filter _ h)
        have hshown := mem_shown_of_look hn
        obtain ⟨hlinked, htables⟩ := neighbors_subset hread
        rw [htables] at hshown
        exact Table.shown_subset _ now hlinked hshown

/-- What a singular traversal shows is a live node to which its root is linked. -/
theorem mem_shown_of_connection (h : (e.connection s now r).1.data = some out) :
    ∃ side root, e.resolve r = .ok (side, root) ∧
      out ∈ (s.tableOf e.table).shown now ((s.tableOf e.table).neighborsAlong now root side none) := by
  rw [connection] at h
  split at h
  · exact absurd h.symm (Option.some_ne_none _)
  next side root hresolve =>
    refine ⟨side, root, hresolve, ?_⟩
    dsimp only at h
    split at h
    · exact absurd h.symm (Option.some_ne_none _)
    next ids s' hread =>
      obtain ⟨n, hn, rfl⟩ := Option.map_eq_some_iff.mp h
      have hshown := mem_shown_of_look (List.mem_of_head? hn)
      have htables := (e.reader now).tableOf_firstNeighbors side s
        ((e.reader now).query root side (limitOr e.settings.query.singularLimit r.arguments.limit) none)
      rw [hread] at htables
      rw [htables] at hshown
      exact Table.shown_subset _ now ((e.reader now).subset_of_firstNeighbors root side _ s _ none rfl
        (congrArg Prod.fst hread)) hshown

end Engine

end PropertyGraph
