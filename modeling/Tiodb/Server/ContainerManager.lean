import Tiodb.Lib.Machine
import Tiodb.Storage.Container

/-!
# The container manager

`MemoryStorageManager` of `MemoryStorage.h` and `ContainerManager` of
`ContainerManager.cpp`. As in `tio.cpp`, one storage manager serves the three
types. Storages and `Container` objects are named by their place in the order of
their creation, so a pointer is a number; an object lives while somebody holds it.
-/

namespace Tiodb

open Lib

/-- The storage, with its property map, is a place in the heap. -/
structure StorageInfoEx where
  name : Bytes
  type : Bytes
  storage : Nat
  deriving DecidableEq, Repr

/-- The manager of the memory storages and the `ContainerManager` over it. A storage is its place in `heap`, and a
`shared_ptr` to a container is its place in `objects`. -/
structure ContainerManager where
  -- every storage ever made, with its property map
  heap : List Container := []
  -- the table of the storage manager
  containers : StringMap StorageInfoEx := ∅
  sink : Bool := false
  aliases : StringMap Bytes := ∅
  -- the storage of every `Container` object ever made
  objects : List Nat := []
  openContainers : StringMap Nat := ∅
  metaContainers : Option Nat := none
  metaAvailableTypes : Option Nat := none
  -- the objects that clients hold, once for each pointer
  held : List Nat := []
  deriving DecidableEq

namespace ContainerManager

/-- A call changes the tables, or throws. -/
abbrev ManagerM := Prog Exc ContainerManager

/-- The types that `MemoryStorageManager` supports. -/
def volatileVector : Bytes := ascii "volatile_vector"

def volatileList : Bytes := ascii "volatile_list"

def volatileMap : Bytes := ascii "volatile_map"

/-- The list of the containers, under the name that it has itself. -/
def metaName : Bytes := ascii "__meta__/containers"

def availableTypesName : Bytes := ascii "__meta__/available_types"

/-! ## The storage manager -/

/-- The functions that `supportedTypes` has for each type. -/
def createVectorStorage (name type : Bytes) : Container := ⟨.vector (VectorStorage.new name type), ∅⟩

def createMapStorage (name type : Bytes) : Container := ⟨.map (MapStorage.new name type), ∅⟩

def createListStorage (name type : Bytes) : Container := ⟨.list (ListStorage.new name type), ∅⟩

/-- `supportedTypes_` -/
def supportedTypes (type : Bytes) : Option (Bytes → Bytes → Container) :=
  if type = volatileVector then some createVectorStorage
  else if type = volatileMap then some createMapStorage
  else if type = volatileList then some createListStorage
  else none

/-- `GenerateName`: the type, a slash and the name. -/
def generateName (containerType containerName : Bytes) : Bytes := containerType ++ 47 :: containerName

/-- The counter of the source never moves. -/
def generateNamelessName : Bytes := ascii "__nameless0__"

/-- Every storage has the one sink of the server. -/
def setSubscriber (sink : Bool) (c : Container) : Container :=
  match c.storage with
  | .list s => { c with storage := .list { s with sink := sink } }
  | .map s => { c with storage := .map { s with sink := sink } }
  | .vector s => { c with storage := .vector { s with sink := sink } }

/-- A new storage gets the subscriber of the manager. -/
def subscribe (i : Nat) : ManagerM Unit :=
  modify fun s => { s with heap := s.heap.modify i (setSubscriber s.sink) }

/-- `MemoryStorageManager::Exists` -/
def storageExists (s : ContainerManager) (containerType containerName : Bytes) : Bool :=
  s.containers.contains (generateName containerType containerName)

/-- `CreateStorage`: a storage that is there is given as it is. -/
def createStorage (type name : Bytes) : ManagerM Nat := do
  match supportedTypes type with
  | none => throw (invalidArgument "storage type not supported")
  | some make =>
    let actualName := if name = [] then generateNamelessName else name
    let key := generateName type actualName
    match (← get).containers[key]? with
    | some info =>
      subscribe info.storage
      return info.storage
    | none =>
      let i := (← get).heap.length
      modify fun s =>
        { s with heap := s.heap ++ [make actualName type], containers := s.containers.insert key ⟨name, type, i⟩ }
      subscribe i
      return i

/-- `OpenStorage` -/
def openStorage (type name : Bytes) : ManagerM Nat := do
  if (supportedTypes type).isNone then throw (invalidArgument "storage type not supported")
  else
    match (← get).containers[generateName type name]? with
    | none => throw (invalidArgument "no such data storage")
    | some info =>
      subscribe info.storage
      return info.storage

/-- `DeleteStorage` takes the storage out of the table. Who holds it keeps it. -/
def deleteStorage (containerType containerName : Bytes) : ManagerM Unit := do
  if (← get).storageExists containerType containerName then
    modify fun s => { s with containers := s.containers.erase (generateName containerType containerName) }
  else throw (invalidArgument "no such data container")

/-! ## The container manager -/

/-- `ResolveAlias` -/
def resolveAlias (s : ContainerManager) (type : Bytes) : Bytes :=
  if type = [] then type else (s.aliases[type]?).getD type

/-- The types that are registered, all for the one manager. -/
def managerByType : List Bytes := [volatileVector, volatileList, volatileMap]

/-- The check of `GetStorageManagerByType`, which resolves the alias once more. -/
def getStorageManagerByType (type : Bytes) : ManagerM Unit := do
  let type := (← get).resolveAlias type
  if type ∈ managerByType then return ()
  else throw ⟨.invalidArgument, ascii "invalid type: " ++ type⟩

/-- The storage of a container object. -/
def containerOf (s : ContainerManager) (o : Nat) : Option Container := (s.objects[o]?).bind (s.heap[·]?)

/-- A call on the storage of a container object. -/
def withObject {α : Type} (o : Nat) (x : Container.ContainerM α) : ManagerM α :=
  ⟨fun s =>
    match s.objects[o]? with
    | none => .undefined
    | some i =>
      match s.heap[i]? with
      | none => .undefined
      | some c => (x.run c).mapState fun c => { s with heap := s.heap.set i c }⟩

/-- The `weak_ptr` to the object is empty: no session and no table of the manager has it. -/
def expired (s : ContainerManager) (o : Nat) : Bool :=
  !(o ∈ s.held || s.metaContainers = some o || s.metaAvailableTypes = some o)

/-- What `openContainers_` gives for a name, if somebody has it still. -/
def openObject (s : ContainerManager) (name : Bytes) : Option Nat :=
  (s.openContainers[name]?).filter fun o => !s.expired o

/-- A container object for a storage, which `openContainers_` knows by its name from now on. -/
def newObject (name : Bytes) (storage : Nat) : ManagerM Nat := do
  let o := (← get).objects.length
  modify fun s =>
    { s with objects := s.objects ++ [storage], openContainers := s.openContainers.insert name o }
  return o

/-- `meta_containers_->Set(name, type)`, if there is a `meta_containers_` yet. -/
def listType (type name : Bytes) : ManagerM Unit := do
  match (← get).metaContainers with
  | some m => withObject m (Container.set (.string name) (.string type) .none)
  | none => pure ()

/-- The branch of `CreateOrOpen` that creates. -/
def create (type name : Bytes) : ManagerM Nat := do
  getStorageManagerByType type
  let storage ← createStorage type name
  listType type name
  newObject name storage

/-- Where no type is given, it is looked up in the list of the containers. -/
def typeToOpen (type name : Bytes) : ManagerM Bytes := do
  if type = [] then
    match (← get).metaContainers with
    | some m =>
      let record ← withObject m (Container.getRecord (.string name))
      Prog.ofExcept record.value.asSz
    -- a call through a null pointer
    | none => Prog.undefined
  else return type

/-- The branch of `CreateOrOpen` that opens. -/
def openExisting (type name : Bytes) : ManagerM Nat := do
  let type ← typeToOpen type name
  getStorageManagerByType type
  newObject name (← openStorage type name)

/-- `CreateContainer` -/
def createContainer (type name : Bytes) : ManagerM Nat := do
  let type := (← get).resolveAlias type
  match (← get).openObject name with
  -- the object is reused, whatever its type
  | some o => return o
  | none => create type name

/-- `OpenContainer` -/
def openContainer (type name : Bytes) : ManagerM Nat := do
  let type := (← get).resolveAlias type
  match (← get).openObject name with
  | some o => return o
  | none => openExisting type name

/-- The record of the name is taken out of the list of the containers. -/
def unlist (name : Bytes) : ManagerM Unit := do
  match (← get).metaContainers with
  | some m => withObject m (Container.delete (.string name) .none .none)
  | none => Prog.undefined

/-- `DeleteContainer`: the record is taken out of the list after the storage is gone. -/
def deleteContainer (type name : Bytes) : ManagerM Unit := do
  let realType := (← get).resolveAlias type
  getStorageManagerByType realType
  deleteStorage realType name
  unlist name

/-- `Exists`: the type is resolved for its manager, and not for the name. -/
def containerExists (containerType containerName : Bytes) : ManagerM Bool := do
  getStorageManagerByType containerType
  return (← get).storageExists containerType containerName

/-- `AddAlias` -/
def addAlias (name type : Bytes) : ManagerM Unit :=
  modify fun s => { s with aliases := s.aliases.insert name type }

/-- `RegisterFundamentalStorageManagers`: the two containers that the manager makes for itself. -/
def registerFundamentalStorageManagers : ManagerM Unit := do
  let m ← createContainer volatileMap metaName
  modify fun s => { s with metaContainers := some m }
  let a ← createContainer volatileVector availableTypesName
  modify fun s => { s with metaAvailableTypes := some a }
  -- the object lives, so this lists nothing
  let m ← createContainer volatileMap metaName
  modify fun s => { s with metaContainers := some m }
  withObject a (Container.pushBack .none (.string volatileVector) .none)
  withObject a (Container.pushBack .none (.string volatileList) .none)
  withObject a (Container.pushBack .none (.string volatileMap) .none)

/-- `SetupContainerManager` of `tio.cpp`, with the aliases of the configuration. -/
def setupContainerManager (aliases : List (Bytes × Bytes)) : ManagerM Unit := do
  registerFundamentalStorageManagers
  aliases.forM fun p => addAlias p.1 p.2

/-! ## Calls of the manager, and clients that let go -/

/-- What a session does with the manager. A `release` lets go of an object. -/
inductive Step where
  | create (type name : Bytes)
  | open (type name : Bytes)
  | delete (type name : Bytes)
  | release (o : Nat)
  deriving DecidableEq, Repr

/-- The client holds what a call returns. -/
def hold : Outcome Exc ContainerManager Nat → Option ContainerManager
  | .ok o s => some { s with held := o :: s.held }
  | .throws _ s => some s
  | .undefined => none

/-- One call. A call that throws leaves what it has done. -/
def step (s : ContainerManager) : Step → Option ContainerManager
  | .create type name => hold ((createContainer type name).run s)
  | .open type name => hold ((openContainer type name).run s)
  | .delete type name => ((deleteContainer type name).run s).next
  | .release o => if o ∈ s.held then some { s with held := s.held.erase o } else none

end ContainerManager

end Tiodb
