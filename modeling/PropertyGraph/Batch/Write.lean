import PropertyGraph.Batch.Chunk
import PropertyGraph.Row.Codec
import PropertyGraph.Store.Storage

/-!
# Writing many records

Records are written in chunks. What a store leaves undone of a chunk is tried again, and so is a chunk that is
throttled, as often as the policy allows; what is left then is handed back. Any other error ends its chunk. A chunk
that fails does not keep the others from being written.
-/

namespace PropertyGraph

/-- What became of a write: the rows that the store did not take, and the errors, at most one for each chunk. -/
structure WriteOutcome where
  undone : List Fields
  errors : List GraphError

variable {σ : Type} [Storage σ]

/-- Writes one chunk with so many retries. -/
def writeChunk (s : σ) (table : String) (retries : Nat) (pending : List Fields) : WriteOutcome × σ :=
  match Storage.batchWrite s table pending with
  | (.ok [], s) => (⟨[], []⟩, s)
  | (.ok undone, s) =>
    match retries with
    | 0 => (⟨undone, []⟩, s)
    | left + 1 => writeChunk s table left undone
  | (.error e, s) =>
    if e.isRetryable then
      match retries with
      | 0 => (⟨pending, [e]⟩, s)
      | left + 1 => writeChunk s table left pending
    else (⟨[], [e]⟩, s)

/-- Writes chunks one after the other. -/
def writeChunks (s : σ) (table : String) (retries : Nat) : List (List Fields) → WriteOutcome × σ
  | [] => (⟨[], []⟩, s)
  | chunk :: rest =>
    let (first, s) := writeChunk s table retries chunk
    let (others, s) := writeChunks s table retries rest
    (⟨first.undone ++ others.undone, first.errors ++ others.errors⟩, s)

/-- Writes records in chunks of at most so many. -/
def writeRecords (s : σ) (table : String) (size retries : Nat) (records : List Record) : WriteOutcome × σ :=
  writeChunks s table retries ((chunks size records).map (·.map Record.toAttributes))

end PropertyGraph
