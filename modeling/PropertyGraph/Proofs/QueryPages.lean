import PropertyGraph.Proofs.FullScan

/-!
# Pages of a query compose

A valid query (`Query.IsOf`) comes to the rows that it selects (`Query.Selects`): those of its key condition that are
after its start key and have not expired, in key order. A page looks at the first of the rows ahead, so that a page and
the one that continues after its key look at the same rows as one page of both limits (`Table.page_append`), whatever
is left out of them afterwards. From this follows what the loops over pages rely on (`Table.query_pages_compose`):
pages compose, each continues further on, no row comes twice, and with a large enough limit no row is missing.
-/

namespace PropertyGraph

/-! ## Valid queries, and what they select -/

namespace View

/-- The attributes whose texts are the place of a row in a view, its partition first. -/
def keyAttributes : View → List String
  | .table => [Attribute.id, Attribute.dataType]
  | .edgeIndex => [Attribute.edge, Attribute.dataType, Attribute.id]

/-- How a query names a view, where the edge index has the given name. -/
def index? (indexName : String) : View → Option String
  | .table => none
  | .edgeIndex => some indexName

/-- The place of a continuation key in a view, which is after another one in the order of its texts. -/
def keyPlace (view : View) (key : StartKey) : List String := view.keyAttributes.filterMap key.get?

end View

/-- Whether a query of a view is valid, but for its limit: it names the view and its partition, and its continuation
key has all attributes of the view's key. -/
structure Query.IsOf (q : Query) (indexName : String) (view : View) : Prop where
  index : q.index = view.index? indexName
  partitionKey : q.partitionKey = view.partitionKey
  startAfter : ∀ key, q.startAfter = some key → ∀ name ∈ view.keyAttributes, (key.get? name).isSome = true

/-- Whether a query selects a row in a view. -/
structure Query.Selects (q : Query) (view : View) (row : Row) : Prop where
  partition : row.attributes.string? view.partitionKey = some q.partition
  beginning : q.sortBeginning.toList <+: row.key.dataType.toList
  after : ∀ key, q.startAfter = some key → view.keyPlace key < view.place row
  live : ∀ cutoff ttl, q.ttlAbove = some cutoff → row.attributes.lookup Attribute.ttl = some (.int ttl) → cutoff < ttl

/-- A row has the partition of its key. -/
theorem Row.string?_id (row : Row) : row.attributes.string? Attribute.id = some row.key.id := by
  have hcarries := row.carries
  unfold Fields.key? at hcarries
  split at hcarries
  next id dataType hid htype =>
    rw [hid, ← Option.some.inj hcarries]
  · simp at hcarries

namespace View

variable {view : View} {key : StartKey}

/-- A continuation key names a place where it has all attributes of the view's key, and names that of their texts. -/
theorem startPosition_eq_ok_iff {place : List String} :
    view.startPosition key = .ok place ↔
      (∀ name ∈ view.keyAttributes, (key.get? name).isSome = true) ∧ view.keyPlace key = place := by
  cases view with
  | table =>
    cases hid : key.get? Attribute.id <;> cases htype : key.get? Attribute.dataType <;>
      simp [startPosition, text, keyPlace, keyAttributes, hid, htype, bind, Except.bind, pure, Except.pure]
  | edgeIndex =>
    cases hid : key.get? Attribute.id <;> cases htype : key.get? Attribute.dataType <;>
      cases hedge : key.get? Attribute.edge <;>
      simp [startPosition, text, keyPlace, keyAttributes, hid, htype, hedge, bind, Except.bind, pure, Except.pure]

/-- The continuation key of a row has all attributes of the view's key, and its place is that of the row. -/
theorem keyPlace_startKey {row : Row} {position : List String} (h : view.position? row = some position) :
    (∀ name ∈ view.keyAttributes, ((view.startKey row).get? name).isSome = true) ∧
    view.keyPlace (view.startKey row) = position :=
  startPosition_eq_ok_iff.mp (QueryAux.startPosition_startKey h)

end View

namespace Query

variable {q : Query} {indexName : String} {view : View}

/-- A valid query with a limit begins after the place of its continuation key. -/
theorem IsOf.resolve (h : q.IsOf indexName view) {limit : Nat} (hl : 1 ≤ limit) :
    { q with limit : Query }.resolve indexName = .ok (view, q.startAfter.map view.keyPlace) := by
  have hview : q.view indexName = .ok view := by
    rw [Query.view, h.index]
    cases view with
    | table => rfl
    | edgeIndex => exact if_pos rfl
  have hstart : q.start view = .ok (q.startAfter.map view.keyPlace) := by
    rw [start]
    split
    next hnone => rw [hnone, Option.map_none]
    next key hkey =>
      rw [View.startPosition_eq_ok_iff.mpr ⟨h.startAfter key hkey, rfl⟩, hkey]
      rfl
  have hlimit : limit ≠ 0 := Nat.ne_of_gt hl
  rw [Query.resolve, show { q with limit : Query }.view indexName = .ok view from hview]
  dsimp only
  rw [if_neg (not_not_intro h.partitionKey), if_neg hlimit, show { q with limit : Query }.start view = _ from hstart]
  rfl

/-- A query that continues after the key of a row is valid where the first one is. -/
theorem IsOf.continued (h : q.IsOf indexName view) {row : Row} {position : List String}
    (hp : view.position? row = some position) :
    { q with startAfter := some (view.startKey row) : Query }.IsOf indexName view := by
  refine ⟨h.index, h.partitionKey, fun key hkey => ?_⟩
  rw [← Option.some.inj hkey]
  exact (View.keyPlace_startKey hp).1

/-- A query comes to the rows of its partition whose data types begin as asked and whose places are after its start. -/
theorem reaches_iff {start : Option (List String)} {row : Row} :
    q.reaches view start row = true ↔ row.attributes.string? view.partitionKey = some q.partition ∧
      q.sortBeginning.toList <+: row.key.dataType.toList ∧ isAfter start (view.place row) = true := by
  cases view with
  | table =>
    rw [View.partitionKey, Row.string?_id]
    simp [reaches, View.position?, View.place, covers, and_assoc]
  | edgeIndex =>
    cases hedge : row.attributes.string? Attribute.edge with
    | none => simp [reaches, View.position?, View.partitionKey, hedge]
    | some edge => simp [reaches, View.position?, View.place, View.partitionKey, covers, hedge, and_assoc]

/-- A query keeps a row that has no time to live, or one that is above what it asks for. -/
theorem keeps_iff {row : Row} :
    q.keeps row = true ↔
      ∀ cutoff ttl, q.ttlAbove = some cutoff → row.attributes.lookup Attribute.ttl = some (.int ttl) →
        cutoff < ttl := by
  have hint : ∀ ttl : Int64,
      (row.attributes.lookup Attribute.ttl).bind Value.int? = some ttl ↔
      row.attributes.lookup Attribute.ttl = some (.int ttl) := by
    intro ttl
    rw [Option.bind_eq_some_iff]
    constructor
    · rintro ⟨v, hv, hint⟩
      cases v with
      | int n => rw [hv, Option.some.inj hint]
      | _ => simp [Value.int?] at hint
    · exact fun h => ⟨_, h, rfl⟩
  unfold keeps
  split
  next cutoff ttl hcutoff httl =>
    rw [decide_eq_true_iff]
    constructor
    · intro h cutoff' ttl' hcutoff' httl'
      rw [← Option.some.inj (hcutoff.symm.trans hcutoff'), ← Option.some.inj (httl.symm.trans ((hint ttl').mpr httl'))]
      exact h
    · exact fun h => h cutoff ttl hcutoff ((hint ttl).mp httl)
  next hnone =>
    refine ⟨fun _ cutoff ttl hcutoff httl => ?_, fun _ => rfl⟩
    exact (hnone cutoff ttl hcutoff ((hint ttl).mpr httl)).elim

theorem isAfter_keyPlace_iff {place : List String} :
    isAfter (q.startAfter.map view.keyPlace) place = true ↔
    ∀ key, q.startAfter = some key → view.keyPlace key < place := by
  cases q.startAfter with
  | none => simp [isAfter]
  | some key => simp [isAfter]

/-- A row that the query comes to and keeps is one that it selects. -/
theorem selects_iff {row : Row} :
    q.Selects view row ↔ q.reaches view (q.startAfter.map view.keyPlace) row = true ∧ q.keeps row = true := by
  rw [reaches_iff, isAfter_keyPlace_iff, keeps_iff]
  constructor
  · rintro ⟨hpartition, hbeginning, hafter, hlive⟩
    exact ⟨⟨hpartition, hbeginning, hafter⟩, hlive⟩
  · rintro ⟨⟨hpartition, hbeginning, hafter⟩, hlive⟩
    exact ⟨hpartition, hbeginning, hafter, hlive⟩

end Query

/-! ## Pages -/

namespace Table

variable {t : Table} {q : Query} {indexName : String} {view : View}

/-- The rows ahead of a query, from the start that its continuation key names. -/
def aheadOf (t : Table) (q : Query) (view : View) : List Row := t.ahead q view (q.startAfter.map view.keyPlace)

/-- The page of a query with a limit, of the rows ahead: it looks at the first of them. -/
def pageOf (t : Table) (q : Query) (view : View) (limit : Nat) : Page :=
  ⟨((t.aheadOf q view).take limit).filter q.keeps,
    if (t.aheadOf q view).length > limit then ((t.aheadOf q view).take limit).getLast?.map view.startKey else none⟩

theorem query_eq_pageOf (t : Table) (h : q.IsOf indexName view) {limit : Nat} (hl : 1 ≤ limit) :
    t.query indexName { q with limit } = .ok (t.pageOf q view limit) := by
  rw [query, h.resolve hl]
  rfl

theorem mem_aheadOf_iff {row : Row} : row ∈ (t.aheadOf q view).filter q.keeps ↔ row ∈ t.rows ∧ q.Selects view row := by
  rw [List.mem_filter, aheadOf, mem_ahead, and_assoc, Query.selects_iff]

theorem rows_pageOf_sublist (t : Table) (q : Query) (view : View) (limit : Nat) :
    (t.pageOf q view limit).rows.Sublist ((t.aheadOf q view).filter q.keeps) :=
  (List.take_sublist ..).filter _

/-- Rows of a table in ascending order of their places have distinct keys. -/
theorem nodup_keys_of_ascending {rows : List Row} (hrows : ∀ row ∈ rows, row ∈ t.rows)
    (h : rows.Pairwise (view.place · < view.place ·)) : (rows.map Row.key).Nodup := by
  refine List.pairwise_map.mpr (h.imp_of_mem fun {a b} ha hb hlt hkey => ?_)
  rw [eq_of_key (hrows a ha) (hrows b hb) hkey] at hlt
  exact List.lt_irrefl _ hlt

/-- The key of a page is that of a row ahead, after which exactly the rows are ahead that the page did not look at. -/
theorem exists_row_of_last {limit : Nat} {key : StartKey} (h : (t.pageOf q view limit).last = some key) :
    ∃ row position, view.position? row = some position ∧ key = view.startKey row ∧
      Query.isAfter (q.startAfter.map view.keyPlace) position = true ∧
      t.aheadOf { q with startAfter := some key } view = (t.aheadOf q view).drop limit ∧
      limit < (t.aheadOf q view).length := by
  obtain ⟨hlong, hlast⟩ := Option.ite_none_right_eq_some.mp (show (if _ then _ else none) = some key from h)
  obtain ⟨row, hrow, rfl⟩ := Option.map_eq_some_iff.mp hlast
  obtain ⟨-, hreaches⟩ := mem_ahead.mp (List.mem_of_mem_take (List.mem_of_getLast? hrow))
  obtain ⟨position, hposition, -, hafter⟩ := QueryAux.of_reaches hreaches
  refine ⟨row, position, hposition, rfl, hafter, ?_, hlong⟩
  rw [aheadOf, Option.map_some, (View.keyPlace_startKey hposition).2, ahead_congr t rfl rfl]
  exact ahead_continued hrow hposition

/-- A page and the one that continues after its key are one page of both limits. -/
theorem page_append {a b : Nat} (hb : 1 ≤ b) {key : StartKey} (h : (t.pageOf q view a).last = some key) :
    (t.pageOf q view a).rows ++ (t.pageOf { q with startAfter := some key } view b).rows =
      (t.pageOf q view (a + b)).rows ∧
      (t.pageOf { q with startAfter := some key } view b).last = (t.pageOf q view (a + b)).last := by
  obtain ⟨row, -, -, -, -, hahead, hlong⟩ := exists_row_of_last h
  unfold pageOf
  rw [hahead, List.take_add]
  constructor
  · rw [List.filter_append]
    rfl
  · have hlength : ((t.aheadOf q view).drop a).length > b ↔ (t.aheadOf q view).length > a + b := by
      rw [List.length_drop]
      omega
    have hnonempty : ((t.aheadOf q view).drop a).take b ≠ [] := by
      intro hnil
      have hzero := congrArg List.length hnil
      rw [List.length_take, List.length_drop, List.length_nil] at hzero
      omega
    dsimp only
    rw [List.getLast?_append, List.getLast?_eq_some_getLast hnonempty, Option.some_or]
    simp only [hlength]

/-- A page without a key has looked at all rows ahead, so that a larger limit makes no difference. -/
theorem pageOf_add {a b : Nat} (ha : 1 ≤ a) (h : (t.pageOf q view a).last = none) :
    t.pageOf q view (a + b) = t.pageOf q view a := by
  have hshort : (t.aheadOf q view).length ≤ a := length_le_of_no_last ha h
  unfold pageOf
  rw [List.take_of_length_le hshort, List.take_of_length_le (Nat.le_add_right_of_le hshort),
    if_neg (Nat.not_lt.mpr hshort), if_neg (Nat.not_lt.mpr (Nat.le_add_right_of_le hshort))]

/-- Pages of a query compose. For every table and every valid query of it or of the edge index:
1. Where a page has no key, a larger limit gets the same rows and no key. Where it has one, that key is after the start
   key; the rows of the page, followed by those of the page that continues after its key, are those of the page of both
   limits, and the keys of these two pages are the same.
2. The rows of a page are rows of the table that the query selects, in key order, so that none comes twice.
3. Where the limit is not below the size of the table, there is no key, and every row that the query selects is there.
   -/
theorem query_pages_compose (t : Table) (h : q.IsOf indexName view) :
    (∀ a b, 1 ≤ a → 1 ≤ b → ∃ first whole, t.query indexName { q with limit := a } = .ok first ∧
      t.query indexName { q with limit := a + b } = .ok whole ∧
      (first.last = none → whole.rows = first.rows ∧ whole.last = none) ∧
      ∀ key, first.last = some key →
        (∀ start, q.startAfter = some start → view.keyPlace start < view.keyPlace key) ∧
        ∃ second, t.query indexName { q with limit := b, startAfter := some key } = .ok second ∧
          first.rows ++ second.rows = whole.rows ∧ second.last = whole.last) ∧
    (∀ limit, 1 ≤ limit → ∃ page, t.query indexName { q with limit } = .ok page ∧
      page.rows.Pairwise (view.place · < view.place ·) ∧ (page.rows.map Row.key).Nodup ∧
      ∀ row ∈ page.rows, row ∈ t.rows ∧ q.Selects view row) ∧
    (∀ limit, 1 ≤ limit → t.size ≤ limit → ∃ page, t.query indexName { q with limit } = .ok page ∧ page.last = none ∧
      ∀ row, row ∈ page.rows ↔ row ∈ t.rows ∧ q.Selects view row) := by
  refine ⟨fun a b ha hb => ?_, fun limit hl => ?_, fun limit hl hsize => ?_⟩
  · refine ⟨_, _, t.query_eq_pageOf h ha, t.query_eq_pageOf h (Nat.le_add_right_of_le ha),
      fun hnone => ?_, fun key hkey => ?_⟩
    · rw [pageOf_add ha hnone]
      exact ⟨rfl, hnone⟩
    · obtain ⟨row, position, hposition, hrow, hafter, -, -⟩ := exists_row_of_last hkey
      refine ⟨fun start hstart => ?_, _, t.query_eq_pageOf (hrow ▸ h.continued hposition) hb, page_append hb hkey⟩
      rw [hrow, (View.keyPlace_startKey hposition).2]
      exact Query.isAfter_keyPlace_iff.mp hafter start hstart
  · have hselected : ∀ row ∈ (t.pageOf q view limit).rows, row ∈ t.rows ∧ q.Selects view row := fun row hrow =>
      mem_aheadOf_iff.mp ((t.rows_pageOf_sublist q view limit).subset hrow)
    have hascending : (t.pageOf q view limit).rows.Pairwise (view.place · < view.place ·) :=
      ((t.ahead_ascending q view _).filter q.keeps).sublist (t.rows_pageOf_sublist q view limit)
    exact ⟨_, t.query_eq_pageOf h hl, hascending, nodup_keys_of_ascending (fun row hrow => (hselected row hrow).1)
      hascending, hselected⟩
  · have hshort : (t.aheadOf q view).length ≤ limit := by
      rw [aheadOf, length_ahead]
      exact Nat.le_trans List.countP_le_length hsize
    have hpage : t.pageOf q view limit = ⟨(t.aheadOf q view).filter q.keeps, none⟩ := by
      rw [pageOf, List.take_of_length_le hshort, if_neg (Nat.not_lt.mpr hshort)]
    refine ⟨_, t.query_eq_pageOf h hl, ?_, fun row => ?_⟩
    · rw [hpage]
    · rw [hpage]
      exact mem_aheadOf_iff

end Table

namespace Sample

/-- Asks for whom a user follows, without what has expired at time ten. -/
def followedNow : Query := { Query.ofTable "ann" with sortBeginning := "follow::", ttlAbove := some 10 }

/-- Asks for who follows a user, by the edge index. -/
def followersNow : Query := { Query.ofIndex "edge-dataType" Attribute.edge "ann" with ttlAbove := some 10 }

/-- The key of the row that a first page of two looks at last, and leaves out. -/
def afterCid : StartKey := Dict.ofList [(Attribute.id, "ann"), (Attribute.dataType, "follow::cid")]

/-- Two pages, of two rows and of one, make up the page of three, and a page of the edge index that is large enough has
no key. -/
theorem following_in_two_pages :
    let t := following.tableOf "graph"
    followedNow.IsOf "edge-dataType" .table ∧ followersNow.IsOf "edge-dataType" .edgeIndex ∧
    (∃ first second whole, t.query "edge-dataType" { followedNow with limit := 2 } = .ok first ∧
      first.last = some afterCid ∧
      t.query "edge-dataType" { followedNow with limit := 1, startAfter := some afterCid } = .ok second ∧
      t.query "edge-dataType" { followedNow with limit := 3 } = .ok whole ∧ first.rows ++ second.rows = whole.rows ∧
      second.last = whole.last ∧ whole.rows.map Row.key = [⟨"ann", "follow::bob"⟩, ⟨"ann", "follow::dan"⟩]) ∧
    ∃ page, t.query "edge-dataType" { followersNow with limit := 4 } = .ok page ∧ page.last = none := by
  intro t
  have hfollowed : followedNow.IsOf "edge-dataType" .table := ⟨rfl, rfl, nofun⟩
  have hfollowers : followersNow.IsOf "edge-dataType" .edgeIndex := ⟨rfl, rfl, nofun⟩
  obtain ⟨hcompose, -, -⟩ := t.query_pages_compose hfollowed
  obtain ⟨-, -, hcomplete⟩ := t.query_pages_compose hfollowers
  obtain ⟨first, whole, hfirst, hwhole, -, hkey⟩ := hcompose 2 1 (by decide) (by decide)
  have hlast : (t.query "edge-dataType" { followedNow with limit := 2 }).toOption.bind Page.last = some afterCid := by
    decide +kernel
  have hrows : (t.query "edge-dataType" { followedNow with limit := 3 }).toOption.map
    (fun page => page.rows.map Row.key) =
      some [⟨"ann", "follow::bob"⟩, ⟨"ann", "follow::dan"⟩] := by decide +kernel
  rw [hfirst] at hlast
  rw [hwhole] at hrows
  obtain ⟨-, second, hsecond, happend, hsame⟩ := hkey afterCid hlast
  obtain ⟨page, hpage, hnone, -⟩ := hcomplete 4 (by decide) (by decide +kernel)
  exact ⟨hfollowed, hfollowers, ⟨first, second, whole, hfirst, hlast, hsecond, hwhole, happend, hsame,
    Option.some.inj hrows⟩,
    page, hpage, hnone⟩

end Sample

end PropertyGraph
