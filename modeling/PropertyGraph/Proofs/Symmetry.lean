import PropertyGraph.Payload.Branch
import PropertyGraph.Proofs.FullScan

/-!
# Traversal is symmetric

The two sides of a relationship read the same edges, one from the partition of the table and the other through the edge
index. So a node is found from another along one side exactly when the other is found from it along the side that
mirrors it (`EdgeReader.traversal_is_symmetric`), and it does not matter from which side an edge was written: either
way it is the same row.
-/

namespace PropertyGraph

namespace EdgeSide

variable {d m : EdgeSide}

theorem edgeName_eq_of_mirrors (h : d.mirrors m = true) : d.edgeName = m.edgeName := by
  simp only [mirrors, Bool.and_eq_true, beq_iff_eq] at h
  exact h.1.1.1

theorem ends_of_principal (h : d.principal = true) (e : Edge) : d.near e = e.id ∧ d.far e = e.neighbor := by
  rw [near, far, h]
  exact ⟨rfl, rfl⟩

theorem ends_of_not_principal (h : m.principal = false) (e : Edge) : m.near e = e.neighbor ∧ m.far e = e.id := by
  rw [near, far, h]
  exact ⟨rfl, rfl⟩

/-- The edge of two nodes that is written from the principal side has the ends and the name of the one that is written
from the side which mirrors it. -/
theorem link_of_mirrors (hd : d.principal = true) (hm : m.principal = false) (h : d.mirrors m = true) (p c : String)
    (stamp other : Stamp) :
    (d.link p c stamp).id = (m.link c p other).id ∧ (d.link p c stamp).name = (m.link c p other).name ∧
      (d.link p c stamp).neighbor = (m.link c p other).neighbor := by
  rw [link, link, hd, hm]
  exact ⟨rfl, edgeName_eq_of_mirrors h, rfl⟩

end EdgeSide

/-- What the row of an edge has as its key and as its neighbor. -/
theorem Edge.key?_toAttributes (e : Edge) :
    e.toAttributes.key? = some ⟨e.id, e.sortKey⟩ ∧ e.toAttributes.string? Attribute.edge = some e.neighbor := by
  obtain ⟨hid, htype, hneighbor, -⟩ := Record.ofAttributes_edge_iff.mp (Record.ofAttributes_edge e)
  rw [Fields.key?, hid, htype]
  exact ⟨rfl, hneighbor⟩

/-- A live edge leads from one node to another along the principal side exactly when one leads back along the side that
mirrors it. -/
theorem Table.links_comm {t : Table} {now : Int64} {d m : EdgeSide} (hd : d.principal = true) (hm : m.principal = false)
    (h : d.mirrors m = true) {p c : String} : t.Links now d p c ↔ t.Links now m c p := by
  refine exists_congr fun row => and_congr_right fun _ => exists_congr fun e => ?_
  refine and_congr_right fun _ => and_congr_right fun _ => ?_
  rw [EdgeSide.edgeName_eq_of_mirrors h, (d.ends_of_principal hd e).1, (d.ends_of_principal hd e).2,
    (m.ends_of_not_principal hm e).1, (m.ends_of_not_principal hm e).2, and_comm (a := e.id = p)]

namespace EdgeReader

/-- Traversal is symmetric. In a readable table, and whatever the limits of the pages are, one node is found from
another along a principal side exactly when the other is found from it along the side that mirrors it. The edge of the
two nodes has one key and one neighbor, whichever of the two sides it is written from. -/
theorem traversal_is_symmetric {r : EdgeReader} {s : Store} {d m : EdgeSide} {p c : String} {limit limit' : Nat}
    (hd : d.principal = true) (hm : m.principal = false) (h : d.mirrors m = true) (hindex : r.indexName = s.indexName)
    (hr : (s.tableOf r.table).IsReadable) (hp : p ≠ "") (hc : c ≠ "") (hl : 0 < limit) (hl' : 0 < limit') :
    (∃ there back s' s'', r.all s p d limit none = (.ok there, s') ∧ r.all s c m limit' none = (.ok back, s'') ∧
      (c ∈ there.neighbors ↔ p ∈ back.neighbors)) ∧
    ∀ stamp stamp', ∃ key,
      (d.link p c stamp).toAttributes.key? = some key ∧ (m.link c p stamp').toAttributes.key? = some key ∧
      (d.link p c stamp).toAttributes.string? Attribute.edge = some c ∧
      (m.link c p stamp').toAttributes.string? Attribute.edge = some c := by
  constructor
  · obtain ⟨s', hthere, -⟩ := all_eq p d hindex hr hl startOf_none
    obtain ⟨s'', hback, -⟩ := all_eq c m hindex hr hl' startOf_none
    refine ⟨_, _, s', s'', hthere, hback, ?_⟩
    rw [Table.mem_neighborsAlong_iff, Table.mem_neighborsAlong_iff, Table.links_comm hd hm h]
    exact ⟨fun hlinks => ⟨hp, hlinks.2⟩, fun hlinks => ⟨hc, hlinks.2⟩⟩
  · intro stamp stamp'
    obtain ⟨hid, hname, hneighbor⟩ := EdgeSide.link_of_mirrors hd hm h p c stamp stamp'
    have hkey : (d.link p c stamp).sortKey = (m.link c p stamp').sortKey := by
      rw [Edge.sortKey, Edge.sortKey, hname, hneighbor]
    have hfar : (d.link p c stamp).neighbor = c := by
      rw [EdgeSide.link, hd]
      rfl
    obtain ⟨hthere, hedge⟩ := (d.link p c stamp).key?_toAttributes
    obtain ⟨hback, hedge'⟩ := (m.link c p stamp').key?_toAttributes
    rw [hfar] at hedge
    rw [← hid, ← hkey] at hback
    rw [← hneighbor, hfar] at hedge'
    exact ⟨_, hthere, hback, hedge, hedge'⟩

end EdgeReader

/-- In the small store each of two users is found from the other, and an edge between them is one row. -/
theorem Sample.following_symmetric :
    let r : EdgeReader := ⟨"graph", "edge-dataType", 10⟩
    (follows.principal = true ∧ followers.principal = false ∧ follows.mirrors followers = true ∧
      r.indexName = following.indexName ∧
      (following.tableOf r.table).IsReadable) ∧
    (∃ there back s' s'', r.all following "ann" follows 1 none = (.ok there, s') ∧
      r.all following "dan" followers 2 none = (.ok back, s'') ∧ ("dan" ∈ there.neighbors ↔ "ann" ∈ back.neighbors)) ∧
    ∀ stamp stamp', ∃ key,
      (follows.link "ann" "dan" stamp).toAttributes.key? = some key ∧
      (followers.link "dan" "ann" stamp').toAttributes.key? = some key ∧
      (follows.link "ann" "dan" stamp).toAttributes.string? Attribute.edge = some "dan" ∧
      (followers.link "dan" "ann" stamp').toAttributes.string? Attribute.edge = some "dan" := by
  intro r
  have hindex : r.indexName = following.indexName := by decide +kernel
  refine ⟨⟨rfl, rfl, by decide, hindex, following_isReadable "graph"⟩, ?_⟩
  exact EdgeReader.traversal_is_symmetric rfl rfl (by decide) hindex (following_isReadable "graph") (by decide)
    (by decide) (by decide) (by decide)

end PropertyGraph
