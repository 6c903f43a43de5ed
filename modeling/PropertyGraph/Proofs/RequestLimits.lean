import PropertyGraph.Proofs.Watched

/-!
# No request is refused

Every request of an operation keeps to the limits of a store, whatever is asked for and whatever the requests before it
were answered: valid settings bound the chunks and the pages, what is left undone of a batch is a part of it, and a
further page is read like the first. So a store that has the edge index of the settings and rejects nothing refuses none
(`Engine.requests_are_within_limits`).
-/

namespace PropertyGraph

/-- Requests within the limits lead an open store through open stores. -/
theorem StoreRequest.Lead.isOpen {indexName : String} {s s' : Store} {asked : List (StoreRequest × Store)}
    (h : Lead s asked s') (hs : s.IsOpen indexName) (hasked : ∀ m ∈ asked, m.1.IsWithin indexName) :
    s'.IsOpen indexName ∧ ∀ m ∈ asked, m.2.IsOpen indexName := by
  induction h with
  | done => exact ⟨hs, nofun⟩
  | ask before r ih =>
    obtain ⟨hopen, hmet⟩ := ih fun m hm => hasked m (List.mem_append_left _ hm)
    have hr : r.IsWithin indexName := hasked _ (List.mem_append_right _ (List.mem_singleton_self _))
    refine ⟨(hr.isTaken hopen).isOpen, fun m hm => ?_⟩
    rcases List.mem_append.mp hm with hold | hnew
    · exact hmet m hold
    · obtain rfl := List.mem_singleton.mp hnew
      exact hopen

/-- In every store, whatever faults are due, (1) an operation that is watched comes to the same and leaves the same
store, and what it asks leads to that store. (2) Each request is within the limits of a store with the edge index of
the settings: a batch of puts has at least one and at most `Store.mostWrites` rows, a batch of look-ups at least one
and at most `Store.mostGets` keys, and a query reads at least one row by the partition that belongs to the table or the
index. (3) A store that has this edge index and rejects nothing refuses none of them. (4) Nor would any other such
store, so that it does not matter in which order the puts of an operation come, or its look-ups, or what others write
between them. -/
theorem Engine.requests_are_within_limits (e : Engine) (s : Store) (c : Engine.Call) :
    let watched := c.perform e (Watched.ofStore s)
    ((watched.1, watched.2.store) = c.perform e s ∧ StoreRequest.Lead s watched.2.asked (c.perform e s).2) ∧
      (∀ m ∈ watched.2.asked, m.1.IsWithin e.settings.store.edgeIndexName) ∧
      (s.indexName = e.settings.store.edgeIndexName → s.failingIds = [] →
        ∀ m ∈ watched.2.asked, ∀ fault, (m.1.ask m.2).1 ≠ .error (.store fault)) ∧
      ∀ m ∈ watched.2.asked, ∀ other : Store, other.indexName = e.settings.store.edgeIndexName →
        other.failingIds = [] → ∀ fault, (m.1.ask other).1 ≠ .error (.store fault) := by
  have hnothing : (Watched.ofStore s).Shows e.settings.store.edgeIndexName s s := ⟨rfl, .done, nofun⟩
  obtain ⟨hvalue, hstore, hlead, hwithin⟩ := (Watched.represents_shows _ s).perform e c hnothing
  refine ⟨⟨Prod.ext hvalue hstore, hlead⟩, hwithin, fun hindex hrejected m hm => ?_, ?_⟩
  · exact ((hwithin m hm).isTaken ((hlead.isOpen ⟨hindex, hrejected⟩ hwithin).2 m hm)).taken
  · intro m hm other hindex hrejected
    exact ((hwithin m hm).isTaken ⟨hindex, hrejected⟩).taken

namespace Sample

/-- Asks for a page of those whom the new user follows, with a limit of zero. -/
def noneFollowed : ConnectionRequest := { firstFollowed with arguments := { limit := some 0 } }

/-- The store of the new user, of which the next request is throttled, and one row of the next batch left undone. -/
def busy : Store := (created.throttling 1).leavingUndone 1

/-- Of how many rows or keys a request speaks. -/
def extent : StoreRequest → Nat
  | .put .. => 1
  | .batchWrite _ batch => batch.length
  | .batchGet _ keys => keys.length
  | .query _ q => q.limit
  | .updateTtl .. => 1

/-- Where the limit is zero, a page of the usual size is read all the same, and the two on it are looked up. Five rows
are written in one batch, which is throttled, then leaves one row undone, and then is done. The store refuses no
request, and would refuse none before anything was due. -/
theorem busy_refuses_none :
    let followed := ((Engine.Call.connectionPlural 5 noneFollowed).perform users (Watched.ofStore busy)).2.asked
    let joining := ((Engine.Call.upsert (later 0) ⟨5, 0⟩ "User" (joining "eve" "follows")).perform users
      (Watched.ofStore busy)).2.asked
    followed.map (extent ·.1) = [10, 2] ∧ joining.map (extent ·.1) = [5, 5, 1] ∧
      ∀ m ∈ followed ++ joining, m.1.IsWithin "edge-dataType" ∧ (∀ fault, (m.1.ask m.2).1 ≠ .error (.store fault)) ∧
        ∀ fault, (m.1.ask created).1 ≠ .error (.store fault) := by
  have hindex := created_indexName.symm
  have hrejected := created_isFaultless.rejected
  obtain ⟨-, hwithin, htaken, hother⟩ := users.requests_are_within_limits busy (.connectionPlural 5 noneFollowed)
  obtain ⟨-, hwithin', htaken', hother'⟩ :=
    users.requests_are_within_limits busy (.upsert (later 0) ⟨5, 0⟩ "User" (joining "eve" "follows"))
  refine ⟨?_, ?_, fun m hm => ?_⟩
  · rw [busy, created_eq]
    decide +kernel
  · have hwatched : (users.upsert (Watched.ofStore busy) (later 0) ⟨5, 0⟩ "User" (joining "eve" "follows")).2.1 = _ :=
      @upsert_joining users.schema users.paired follows "eve" (by decide) (by decide) Watched _ (.ofStore busy) ⟨5, 0⟩
    rw [Engine.Call.perform]
    dsimp only
    rw [hwatched, busy, created_eq]
    decide +kernel
  · rcases List.mem_append.mp hm with h | h
    · exact ⟨hwithin m h, htaken hindex hrejected m h, hother m h created hindex hrejected⟩
    · exact ⟨hwithin' m h, htaken' hindex hrejected m h, hother' m h created hindex hrejected⟩

end Sample

end PropertyGraph
