import DurableAgent.Application.Serving
import DurableAgent.Library.Contract
import DurableAgent.Repository.Indexing

/-!
# The store next to the repository

The store sees of the repository only what an index answers. A site is a store together with the
repository and the indexes that are stored of it: here indexing and the reading of indexes are
answered by the indexer, and everything else by the store.
-/

namespace DurableAgent.Orchestration

open Library Library.Prog Store Repository

variable {Text : Type}

def snapshotIdOf (index : RepositoryIndex) : String := index.snapshot.snapshotId

structure Site (Text : Type) where
  store : StoreState Text
  /-- What a walk of the repository yields at present. -/
  walk : Walk
  /-- The indexes that were made for a caller, the newest first. -/
  made : List RepositoryIndex
  /-- `repository_snapshots` with the rows that belong to them -/
  indexes : Table snapshotIdOf

namespace Site

variable (I : LocalRepositoryIndexer) (w : Site Text)

def indexRepository (root : String) (previous : Option String) (freshId : String) :
    Except Exn (String × String) × Site Text :=
  match I.index root w.walk (previous.bind w.indexes.find) s!"snap-{freshId}" with
  | .ok index => (.ok (snapshotIdOf index, index.snapshot.manifestHash),
      { w with made := index :: w.made })
  | .error e => (.error e, w)

/-- `SqlStore.save_repository_index` of the index that was made under the identifier -/
def saveRepositoryIndex (snapshotId : String) : Except Exn Unit × Site Text :=
  match (w.made.find? fun index => snapshotIdOf index = snapshotId).bind w.indexes.insert with
  | some indexes => (.ok (), { w with indexes := indexes })
  | none => (.error (.of .idempotencyConflict "repository snapshot already exists"), w)

/-- `SqlStore.get_repository_index` -/
def getRepositoryIndex (snapshotId : String) : Except Exn RepositoryIndex :=
  match w.indexes.find snapshotId with
  | some index => .ok index
  | none => .error (.of .notFound s!"repository snapshot not found: {snapshotId}")

end Site

/-- The effect of each call. -/
def handleSite (I : LocalRepositoryIndexer) (codec : Codec Text) :
    Handler (StoreOp Text) Exn Supply (Site Text)
  | _, .sql (.indexRepository root previous), t, w => w.indexRepository I root previous t.freshId
  | _, .sql (.saveRepositoryIndex snapshotId), _, w => w.saveRepositoryIndex snapshotId
  | _, .sql (.getRepositoryIndex snapshotId), _, w =>
    ((w.getRepositoryIndex snapshotId).map snapshotIdOf, w)
  | _, .checkpoint (.getRepositoryIndex snapshotId), _, w =>
    ((w.getRepositoryIndex snapshotId).map fun index => index.snapshot.manifestHash, w)
  | _, op, t, w =>
    let (x, store) := handle codec I.sha256Digest _ op t w.store
    (x, { w with store := store })

/-- The calls, each of which may also fail without effect. -/
abbrev siteExec (I : LocalRepositoryIndexer) (codec : Codec Text) :
    Exec (StoreOp Text) Exn (Site Text) :=
  (handleSite I codec).exec.withFaults

/-- The calls that are about the repository. -/
def OfRepository : (β : Type) → StoreOp Text β → Prop
  | _, .sql (.indexRepository _ _) => True
  | _, .sql (.saveRepositoryIndex _) => True
  | _, .sql (.getRepositoryIndex _) => True
  | _, .checkpoint (.getRepositoryIndex _) => True
  | _, _ => False

/-- What a call can do: fail, make an index, store one that was made, read one that is stored, or
be a call of the store. -/
inductive SiteStep (I : LocalRepositoryIndexer) (codec : Codec Text) (w : Site Text) :
    (β : Type) → StoreOp Text β → Except Exn β → Site Text → Prop where
  | failed {β : Type} {op : StoreOp Text β} (e : Exn) : SiteStep I codec w β op (.error e) w
  | made {root snapshotId : String} {previous : Option String} {index : RepositoryIndex}
    (h : I.index root w.walk (previous.bind w.indexes.find) snapshotId = .ok index) :
    SiteStep I codec w _ (.sql (.indexRepository root previous))
      (.ok (snapshotIdOf index, index.snapshot.manifestHash)) { w with made := index :: w.made }
  | saved {snapshotId : String} {index : RepositoryIndex} {indexes : Table snapshotIdOf}
    (hmade : w.made.find? (fun index => snapshotIdOf index = snapshotId) = some index)
    (h : w.indexes.insert index = some indexes) :
    SiteStep I codec w _ (.sql (.saveRepositoryIndex snapshotId)) (.ok ())
      { w with indexes := indexes }
  | read {snapshotId : String} {index : RepositoryIndex}
    (h : w.indexes.find snapshotId = some index) :
    SiteStep I codec w _ (.sql (.getRepositoryIndex snapshotId)) (.ok (snapshotIdOf index)) w
  | hashed {snapshotId : String} {index : RepositoryIndex}
    (h : w.indexes.find snapshotId = some index) :
    SiteStep I codec w _ (.checkpoint (.getRepositoryIndex snapshotId))
      (.ok index.snapshot.manifestHash) w
  | stored {β : Type} {op : StoreOp Text β} {x : Except Exn β} {s : StoreState Text}
    (hop : ¬ OfRepository β op) (t : Supply)
    (h : handle codec I.sha256Digest β op t w.store = (x, s)) :
    SiteStep I codec w β op x { w with store := s }

section Steps

variable {I : LocalRepositoryIndexer} {codec : Codec Text} {w w' : Site Text} {β : Type}

theorem siteStep_index {root freshId : String} {previous : Option String} :
    SiteStep I codec w _ (.sql (.indexRepository root previous))
      (w.indexRepository I root previous freshId).1
      (w.indexRepository I root previous freshId).2 := by
  unfold Site.indexRepository
  split
  · next index h => exact .made h
  · next e h => exact .failed e

theorem siteStep_save {snapshotId : String} :
    SiteStep I codec w _ (.sql (.saveRepositoryIndex snapshotId))
      (w.saveRepositoryIndex snapshotId).1 (w.saveRepositoryIndex snapshotId).2 := by
  unfold Site.saveRepositoryIndex
  split
  · next indexes h =>
    obtain ⟨index, hmade, hinsert⟩ := Option.bind_eq_some_iff.mp h
    exact .saved hmade hinsert
  · exact .failed _

theorem siteStep_read {snapshotId : String} :
    SiteStep I codec w _ (.sql (.getRepositoryIndex snapshotId))
      ((w.getRepositoryIndex snapshotId).map snapshotIdOf) w := by
  unfold Site.getRepositoryIndex
  split
  · next index h => exact .read h
  · exact .failed _

theorem siteStep_hashed {snapshotId : String} :
    SiteStep I codec w _ (.checkpoint (.getRepositoryIndex snapshotId))
      ((w.getRepositoryIndex snapshotId).map fun index => index.snapshot.manifestHash) w := by
  unfold Site.getRepositoryIndex
  split
  · next index h => exact .hashed h
  · exact .failed _

theorem siteStep_of_handle {op : StoreOp Text β} {t : Supply} :
    SiteStep I codec w β op (handleSite I codec β op t w).1 (handleSite I codec β op t w).2 := by
  cases op with
  | sql op =>
    cases op with
    | indexRepository => exact siteStep_index
    | saveRepositoryIndex => exact siteStep_save
    | getRepositoryIndex => exact siteStep_read
    | _ => exact .stored id t rfl
  | checkpoint op =>
    cases op with
    | getRepositoryIndex => exact siteStep_hashed
    | _ => exact .stored id t rfl
  | lease op => exact .stored id t rfl
  | tools op => exact .stored id t rfl

theorem siteStep_of_exec {op : StoreOp Text β} {x : Except Exn β}
    (h : siteExec I codec β op w x w') : SiteStep I codec w β op x w' := by
  rcases h with ⟨t, ht⟩ | ⟨e, rfl, rfl⟩
  · have hstep := @siteStep_of_handle _ I codec w _ op t
    rw [ht] at hstep
    exact hstep
  · exact .failed e

/-! ### Single calls that are answered -/

theorem Site.getRepositoryIndex_eq_ok {snapshotId : String} {index : RepositoryIndex} :
    w.getRepositoryIndex snapshotId = .ok index ↔
      index ∈ w.indexes.rows ∧ snapshotIdOf index = snapshotId := by
  rw [← Table.find_eq_some]
  unfold Site.getRepositoryIndex
  split
  · next found h => simp [h]
  · next h => simp [h]

theorem hash_answered {snapshotId hash : String}
    (h : siteExec I codec _ (.checkpoint (.getRepositoryIndex snapshotId)) w (.ok hash) w') :
    w' = w ∧ ∃ index ∈ w.indexes.rows,
      snapshotIdOf index = snapshotId ∧ index.snapshot.manifestHash = hash := by
  rcases h with ⟨t, ht⟩ | ⟨e, he, -⟩
  · obtain ⟨hx, rfl⟩ := Prod.mk.inj ht
    obtain ⟨index, hindex, rfl⟩ := Security.map_eq_ok.mp hx
    obtain ⟨hmem, hid⟩ := Site.getRepositoryIndex_eq_ok.mp hindex
    exact ⟨rfl, index, hmem, hid, rfl⟩
  · cases he

theorem read_answered {snapshotId previous : String}
    (h : siteExec I codec _ (.sql (.getRepositoryIndex snapshotId)) w (.ok previous) w') :
    w' = w ∧ previous = snapshotId ∧ ∃ index, w.indexes.find snapshotId = some index := by
  rcases h with ⟨t, ht⟩ | ⟨e, he, -⟩
  · obtain ⟨hx, rfl⟩ := Prod.mk.inj ht
    obtain ⟨index, hindex, rfl⟩ := Security.map_eq_ok.mp hx
    have hfound := Site.getRepositoryIndex_eq_ok.mp hindex
    exact ⟨rfl, hfound.2, index, Table.find_eq_some.mpr hfound⟩
  · cases he

theorem index_answered {root : String} {previous : Option String} {current : String × String}
    (h : siteExec I codec _ (.sql (.indexRepository root previous)) w (.ok current) w') :
    ∃ snapshotId index, I.index root w.walk (previous.bind w.indexes.find) snapshotId = .ok index ∧
      current = (snapshotIdOf index, index.snapshot.manifestHash) ∧
      w' = { w with made := index :: w.made } := by
  rcases h with ⟨t, ht⟩ | ⟨e, he, -⟩
  · change w.indexRepository I root previous t.freshId = _ at ht
    unfold Site.indexRepository at ht
    split at ht
    · next index hindex =>
      obtain ⟨hx, rfl⟩ := Prod.mk.inj ht
      exact ⟨_, index, hindex, (Except.ok.inj hx).symm, rfl⟩
    · cases ht
  · cases he

theorem save_answered {snapshotId : String}
    (h : siteExec I codec _ (.sql (.saveRepositoryIndex snapshotId)) w (.ok ()) w') :
    ∃ index indexes, w.made.find? (fun index => snapshotIdOf index = snapshotId) = some index ∧
      w.indexes.insert index = some indexes ∧ w' = { w with indexes := indexes } := by
  rcases h with ⟨t, ht⟩ | ⟨e, he, -⟩
  · change w.saveRepositoryIndex snapshotId = _ at ht
    unfold Site.saveRepositoryIndex at ht
    split at ht
    · next indexes h =>
      obtain ⟨-, rfl⟩ := Prod.mk.inj ht
      obtain ⟨index, hmade, hinsert⟩ := Option.bind_eq_some_iff.mp h
      exact ⟨index, indexes, hmade, hinsert, rfl⟩
    · cases ht
  · cases he

end Steps

/-- The sites that a history of the repository and of the service leads to, with what is left to
do of the call that was issued last. Calls are issued one after the other, each at any time, which
leaves undone what the one before has still to do. Whatever happens meanwhile to the repository
may happen between any two steps, and so may the indexing by others: by a tool, or by the command
that indexes. -/
inductive Reached (I : LocalRepositoryIndexer) (codec : Codec Text) :
    StoreProg Text Unit → Site Text → Prop where
  | fresh (journal : Tools.World) (walk : Walk) :
    Reached I codec (pure ()) ⟨freshStore journal, walk, [], .empty⟩
  | changed {p : StoreProg Text Unit} {w : Site Text} (walk : Walk) (h : Reached I codec p w) :
    Reached I codec p { w with walk := walk }
  | indexed {p : StoreProg Text Unit} {w : Site Text} {root snapshotId : String}
    {previous : Option RepositoryIndex} {index : RepositoryIndex} {indexes : Table snapshotIdOf}
    (h : Reached I codec p w) (hprevious : ∀ i ∈ previous, i ∈ w.indexes.rows)
    (hindex : I.index root w.walk previous snapshotId = .ok index)
    (hinsert : w.indexes.insert index = some indexes) :
    Reached I codec p { w with indexes := indexes }
  | issued {p : StoreProg Text Unit} {w : Site Text} (A : Agent Text) (hcodec : A.codec = codec)
    (call : ServiceCall) (h : Reached I codec p w) : Reached I codec (call.program A) w
  | answered {β : Type} {op : StoreOp Text β} {k : Except Exn β → StoreProg Text Unit}
    {w w' : Site Text} {x : Except Exn β} (h : Reached I codec (.call op k) w)
    (hop : siteExec I codec β op w x w') : Reached I codec (k x) w'

end DurableAgent.Orchestration
