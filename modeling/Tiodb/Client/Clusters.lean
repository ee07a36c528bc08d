import Mathlib.Data.Finite.Prod
import Mathlib.Data.Set.Finite.Range
import Tiodb.Data
import Tiodb.Lib.Decimal
import Tiodb.Lib.Machine
import Tiodb.Lib.Walk

/-!
# Connections to the servers of a cluster

`tio_connect`, `tio_connect_cluster`, `tio_create_or_open_cluster` and
`tio_create_or_open` of `tioclient.c`. A server that refuses a name is asked, in its
`__meta__/clusters`, where the name is, and the client opens the name there. A pointer
to a connection is its place in the list of all connections; a C string is its bytes
before the NUL.
-/

namespace Tiodb.Clusters

open Lib

structure Request where
  commandId : UInt32
  name : Bytes
  type : Option Bytes
  deriving DecidableEq, Repr

def commandOpen : UInt32 := 0x11

/-- What `tio_connect` opens on each connection. -/
def openClusters : Request := ⟨commandOpen, ascii "__meta__/clusters", some (ascii "volatile_map")⟩

/-- The servers, on which every connect, send and receive completes: where an address leads, the requests
that a server does not refuse, and the entry of its `__meta__/clusters` for a name. -/
structure Network (ι : Type) where
  connect : Bytes → Int16 → Option ι
  accepts : ι → Request → Bool
  directory : ι → Bytes → Option Bytes

/-- `clustersContainer` says whether the pointer is not NULL. -/
structure Connection (ι : Type) where
  server : ι
  host : Bytes
  port : UInt16
  clustersContainer : Bool
  clustersConnections : List Nat
  clustersConnectionsBufferSize : Nat
  deriving DecidableEq, Repr

abbrev Heap (ι : Type) := List (Connection ι)

variable {ι : Type}

/-! ## The functions -/

/-- The `tio_open` in it has no directory to go to: the memory of the connection is zeroed. -/
def tioConnect (net : Network ι) (heap : Heap ι) (host : Bytes) (port : Int16) : Option (Heap ι × Nat) :=
  (net.connect host port).map fun server =>
    (heap ++ [⟨server, host, port.toUInt16, net.accepts server openClusters, [], 0⟩], heap.length)

/-- Both ports are an `int` when they are compared. -/
def Connection.isTo (d : Connection ι) (host : Bytes) (port : Int16) : Bool :=
  d.host = host && (d.port.toNat : Int) = port.toInt

def Connection.search (connection : Connection ι) (heap : Heap ι) (host : Bytes) (port : Int16) : Option Nat :=
  connection.clustersConnections.find? fun d => (heap[d]?).any (·.isTo host port)

def Connection.isFull (connection : Connection ι) : Bool :=
  connection.clustersConnectionsBufferSize = connection.clustersConnections.length

def Connection.newBufferSize (connection : Connection ι) : Nat :=
  if connection.clustersConnectionsBufferSize = 0 then 64 else connection.clustersConnectionsBufferSize * 2

/-- `memory` says whether `realloc` gives the new buffer. A size past the `int` is negative, and no buffer has it. -/
def Connection.bufferSizeAfter (connection : Connection ι) (memory : Bool) : Nat :=
  if connection.isFull && memory && connection.newBufferSize < 2 ^ 31 then connection.newBufferSize
  else connection.clustersConnectionsBufferSize

/-- `none` stands for an error. A connection that has no place in the table is closed again. -/
def tioConnectCluster (net : Network ι) (memory : Bool) (heap : Heap ι) (c : Nat) (host : Bytes) (port : Int16) :
    Heap ι × Option Nat :=
  match heap[c]? with
  | none => (heap, none)
  | some connection =>
    match connection.search heap host port with
    | some d => (heap, some d)
    | none =>
      match tioConnect net heap host port with
      | none => (heap, none)
      | some (heap', d) =>
        let size := connection.bufferSizeAfter memory
        if connection.clustersConnections.length < size then
          (heap'.set c { connection with
            clustersConnections := connection.clustersConnections ++ [d],
            clustersConnectionsBufferSize := size }, some d)
        else (heap, none)

/-- The entry is a port of the host of the connection, or a host and a port with a colon between them. -/
def address (host value : Bytes) : Bytes × Int16 :=
  let value := cstr value
  if 58 ∈ value then (value.takeWhile (· ≠ 58), (atoi (value.dropWhile (· ≠ 58)).tail).toInt16)
  else (host, (atoi value).toInt16)

/-- The result is the connection that the container is open on, and outside it `none` is a call that
does not return; `createOrOpen` is the call of `tio_create_or_open` on another connection. -/
def tioCreateOrOpenCluster (net : Network ι) (memory : Bool)
    (createOrOpen : Heap ι → Nat → Option (Heap ι × Option Nat))
    (heap : Heap ι) (c : Nat) (connection : Connection ι) (r : Request) : Option (Heap ι × Option Nat) :=
  match net.directory connection.server r.name with
  | none => some (heap, none)
  | some value =>
    let (host, port) := address connection.host value
    match tioConnectCluster net memory heap c host port with
    | (heap', none) => some (heap', none)
    | (heap', some d) => createOrOpen heap' d

/-- `calls` bounds the depth of the calls, and `memory` has the answer of `realloc` at each depth. -/
def tioCreateOrOpen (net : Network ι) (r : Request) :
    Nat → (Nat → Bool) → Heap ι → Nat → Option (Heap ι × Option Nat)
  | 0, _, _, _ => none
  | calls + 1, memory, heap, c =>
    match heap[c]? with
    | none => some (heap, none)
    | some connection =>
      if net.accepts connection.server r then some (heap, some c)
      else if connection.clustersContainer then
        tioCreateOrOpenCluster net (memory 0) (tioCreateOrOpen net r calls fun n => memory (n + 1))
          heap c connection r
      else some (heap, none)

/-- The call returns after finitely many nested calls. -/
def Returns (net : Network ι) (r : Request) (memory : Nat → Bool) (heap : Heap ι) (c : Nat) : Prop :=
  ∃ calls, (tioCreateOrOpen net r calls memory heap c).isSome

/-! ## Looking for a connection -/

theorem Connection.isTo_iff {d : Connection ι} {host : Bytes} {port : Int16} :
    d.isTo host port = true ↔ d.host = host ∧ (d.port.toNat : Int) = port.toInt := by
  simp [Connection.isTo]

theorem toInt16_eq {p : UInt16} {q : Int16} (h : (p.toNat : Int) = q.toInt) : p.toInt16 = q := by
  have hp := p.toInt16.toInt_lt
  have hq := q.toInt_lt
  rw [← Int16.toInt_inj, Int16.toInt, UInt16.toBitVec_toInt16, BitVec.toInt_eq_toNat_bmod]
  rw [UInt16.toNat_toBitVec, h, Int.bmod_eq_of_le (by simpa using q.le_toInt) (by simpa using hq)]

theorem address_of_isTo {d : Connection ι} {host : Bytes} {port : Int16} (h : d.isTo host port) :
    d.host = host ∧ d.port.toInt16 = port := by
  rw [Connection.isTo_iff] at h
  exact ⟨h.1, toInt16_eq h.2⟩

theorem search_eq_some {connection : Connection ι} {heap : Heap ι} {host : Bytes} {port : Int16} {d : Nat}
    (h : connection.search heap host port = some d) :
    d ∈ connection.clustersConnections ∧ ∃ e, heap[d]? = some e ∧ e.isTo host port := by
  refine ⟨List.mem_of_find?_eq_some h, ?_⟩
  have hd := List.find?_some h
  exact (Option.any_eq_true ..).mp hd

def Connection.HasRoom (connection : Connection ι) (memory : Bool) : Prop :=
  connection.clustersConnections.length < connection.bufferSizeAfter memory

instance (connection : Connection ι) (memory : Bool) : Decidable (connection.HasRoom memory) :=
  inferInstanceAs (Decidable (_ < _))

section Cluster

variable {net : Network ι} {memory : Bool} {heap : Heap ι} {c : Nat} {connection : Connection ι}
  {host : Bytes} {port : Int16}

def newConnection (net : Network ι) (server : ι) (host : Bytes) (port : Int16) : Connection ι :=
  ⟨server, host, port.toUInt16, net.accepts server openClusters, [], 0⟩

def Connection.withNew (connection : Connection ι) (memory : Bool) (d : Nat) : Connection ι :=
  { connection with
    clustersConnections := connection.clustersConnections ++ [d],
    clustersConnectionsBufferSize := connection.bufferSizeAfter memory }

theorem tioConnectCluster_cases (hc : heap[c]? = some connection) :
    (∃ d, connection.search heap host port = some d ∧
      tioConnectCluster net memory heap c host port = (heap, some d)) ∨
    (connection.search heap host port = none ∧ (net.connect host port = none ∨ ¬ connection.HasRoom memory) ∧
      tioConnectCluster net memory heap c host port = (heap, none)) ∨
    (connection.search heap host port = none ∧ connection.HasRoom memory ∧
      ∃ server, net.connect host port = some server ∧
        tioConnectCluster net memory heap c host port =
          ((heap ++ [newConnection net server host port]).set c (connection.withNew memory heap.length),
            some heap.length)) := by
  unfold tioConnectCluster
  simp only [hc]
  cases hsearch : connection.search heap host port with
  | some d => exact .inl ⟨d, rfl, rfl⟩
  | none =>
    cases hconnect : net.connect host port with
    | none => exact .inr (.inl ⟨rfl, .inl rfl, by simp [tioConnect, hconnect]⟩)
    | some server =>
      simp only [tioConnect, hconnect, Option.map_some]
      by_cases hroom : connection.HasRoom memory
      · exact .inr (.inr ⟨trivial, hroom, server, rfl, if_pos hroom⟩)
      · exact .inr (.inl ⟨trivial, .inr hroom, if_neg hroom⟩)

/-- What the calls of the library leave in a heap of `size` connections: the connection leads where its own
address does, knows whether its server has a directory, and has only connections in its table, which fit. -/
structure Connection.Sound (net : Network ι) (size : Nat) (d : Connection ι) : Prop where
  address : net.connect d.host d.port.toInt16 = some d.server
  container : d.clustersContainer = net.accepts d.server openClusters
  table : ∀ i ∈ d.clustersConnections, i < size
  fits : d.clustersConnections.length ≤ d.clustersConnectionsBufferSize

def Sound (net : Network ι) (heap : Heap ι) : Prop := ∀ d ∈ heap, d.Sound net heap.length

theorem Connection.Sound.mono {size size' : Nat} (h : connection.Sound net size) (hle : size ≤ size') :
    connection.Sound net size' :=
  ⟨h.address, h.container, fun i hi => (h.table i hi).trans_le hle, h.fits⟩

theorem Sound.append (hs : Sound net heap) {server : ι} (h : net.connect host port = some server) :
    Sound net (heap ++ [newConnection net server host port]) := by
  intro d hd
  rcases List.mem_append.mp hd with hd | hd
  · exact (hs d hd).mono (by simp)
  · obtain rfl := List.mem_singleton.mp hd
    exact ⟨by simpa [newConnection] using h, rfl, fun i hi => absurd hi List.not_mem_nil, Nat.le_refl 0⟩

theorem Sound.withNew (hs : Sound net heap) (hc : heap[c]? = some connection) {d : Nat} (hd : d < heap.length)
    (hroom : connection.HasRoom memory) :
    Sound net (heap.set c (connection.withNew memory d)) := by
  have hconnection := hs connection (List.mem_of_getElem? hc)
  intro e he
  rw [List.length_set]
  rcases List.mem_or_eq_of_mem_set he with he | rfl
  · exact hs e he
  · refine ⟨hconnection.address, hconnection.container, fun i hi => ?_, ?_⟩
    · rcases List.mem_append.mp hi with hi | hi
      · exact hconnection.table i hi
      · exact List.mem_singleton.mp hi ▸ hd
    · unfold Connection.HasRoom at hroom
      simpa [Connection.withNew, Nat.succ_le_iff] using hroom

theorem Sound.tioConnectCluster (hs : Sound net heap) (hc : heap[c]? = some connection) {heap' : Heap ι}
    {result : Option Nat} (h : Clusters.tioConnectCluster net memory heap c host port = (heap', result)) :
    Sound net heap' ∧ (result = none → net.connect host port = none ∨ ¬ connection.HasRoom memory) ∧
      ∀ d, result = some d → ∃ e, heap'[d]? = some e ∧ e.host = host ∧ net.connect host port = some e.server ∧
        (heap' = heap ∧ connection.clustersConnections ≠ [] ∨ e.clustersConnections = []) := by
  rcases @tioConnectCluster_cases _ net memory heap c connection host port hc with
    ⟨d, hfound, hcall⟩ | ⟨-, hwhy, hcall⟩ | ⟨-, hroom, server, hconnect, hcall⟩
  · obtain ⟨rfl, rfl⟩ := Prod.mk.inj (hcall.symm.trans h)
    obtain ⟨hd, e, he, hto⟩ := search_eq_some hfound
    obtain ⟨rfl, rfl⟩ := address_of_isTo hto
    refine ⟨hs, nofun, fun d' hd' => ?_⟩
    obtain rfl := Option.some.inj hd'
    exact ⟨e, he, rfl, (hs e (List.mem_of_getElem? he)).address, .inl ⟨rfl, List.ne_nil_of_mem hd⟩⟩
  · obtain ⟨rfl, rfl⟩ := Prod.mk.inj (hcall.symm.trans h)
    exact ⟨hs, fun _ => hwhy, nofun⟩
  · obtain ⟨rfl, rfl⟩ := Prod.mk.inj (hcall.symm.trans h)
    have hlt : c < heap.length := (List.getElem?_eq_some_iff.mp hc).1
    refine ⟨(hs.append hconnect).withNew ?_ (by simp) hroom, nofun, fun d hd => ?_⟩
    · rw [List.getElem?_append_left hlt, hc]
    · obtain rfl := Option.some.inj hd
      refine ⟨newConnection net server host port, ?_, rfl, hconnect, .inr rfl⟩
      rw [List.getElem?_set_ne hlt.ne, List.getElem?_concat_length]

end Cluster

/-! ## From server to server -/

section Open

variable {net : Network ι} {r : Request} {memory : Nat → Bool} {heap heap' : Heap ι} {c : Nat}
  {connection : Connection ι}

def Connection.place (connection : Connection ι) : ι × Bytes := (connection.server, connection.host)

/-- Where the directory of a server that is known under a host says that the name is. -/
def referral (net : Network ι) (name : Bytes) (place : ι × Bytes) : Option (ι × Bytes) :=
  (net.directory place.1 name).bind fun value =>
    (net.connect (address place.2 value).1 (address place.2 value).2).map fun server =>
      (server, (address place.2 value).1)

/-- The next place of the request, which ends where it is accepted and where there is no directory. -/
def hop (net : Network ι) (r : Request) (place : ι × Bytes) : Option (ι × Bytes) :=
  if !net.accepts place.1 r && net.accepts place.1 openClusters then referral net r.name place else none

/-- What a call of `tio_create_or_open` can do: return by itself, or go on from a connection to the next place. -/
theorem tioCreateOrOpen_cases (hs : Sound net heap) (hc : heap[c]? = some connection) (calls : Nat) :
    (∃ heap' result, tioCreateOrOpen net r (calls + 1) memory heap c = some (heap', result) ∧ Sound net heap' ∧
      (hop net r connection.place = none ∨ ¬ connection.HasRoom (memory 0))) ∨
    (∃ heap' d e, Sound net heap' ∧ heap'[d]? = some e ∧
      (heap' = heap ∧ connection.clustersConnections ≠ [] ∨ e.clustersConnections = []) ∧
      hop net r connection.place = some e.place ∧
      tioCreateOrOpen net r (calls + 1) memory heap c =
        tioCreateOrOpen net r calls (fun n => memory (n + 1)) heap' d) := by
  have hcontainer := (hs connection (List.mem_of_getElem? hc)).container
  rw [tioCreateOrOpen, hc]
  simp only
  by_cases haccepts : net.accepts connection.server r = true
  · exact .inl ⟨heap, some c, if_pos haccepts, hs, .inl (by simp [hop, Connection.place, haccepts])⟩
  rw [if_neg haccepts, hcontainer]
  by_cases hclusters : net.accepts connection.server openClusters = true
  swap
  · exact .inl ⟨heap, none, if_neg hclusters, hs, .inl (by simp [hop, Connection.place, hclusters])⟩
  have hhop : hop net r connection.place = referral net r.name connection.place := by
    simp [hop, Connection.place, haccepts, hclusters]
  rw [if_pos hclusters, tioCreateOrOpenCluster, hhop]
  cases hdirectory : net.directory connection.server r.name with
  | none => exact .inl ⟨heap, none, rfl, hs, .inl (by simp [referral, Connection.place, hdirectory])⟩
  | some value =>
    simp only
    cases hcall : tioConnectCluster net (memory 0) heap c (address connection.host value).1
        (address connection.host value).2 with
    | mk heap' result =>
      obtain ⟨hs', hwhy, hresult⟩ := hs.tioConnectCluster hc hcall
      cases result with
      | none =>
        refine .inl ⟨heap', none, rfl, hs', (hwhy rfl).imp (fun hconnect => ?_) id⟩
        simp [referral, Connection.place, hdirectory, hconnect]
      | some d =>
        obtain ⟨e, he, hhost, hconnect, hnew⟩ := hresult d rfl
        refine .inr ⟨heap', d, e, hs', he, hnew, ?_, rfl⟩
        simp [referral, Connection.place, hdirectory, hconnect, hhost]

theorem tioCreateOrOpen_sound {calls : Nat} {result : Option Nat} (hs : Sound net heap)
    (h : tioCreateOrOpen net r calls memory heap c = some (heap', result)) : Sound net heap' := by
  induction calls generalizing memory heap c with
  | zero => exact absurd h (by simp [tioCreateOrOpen])
  | succ calls ih =>
    cases hc : heap[c]? with
    | none =>
      rw [tioCreateOrOpen, hc] at h
      obtain ⟨rfl, rfl⟩ := Prod.mk.inj (Option.some.inj h)
      exact hs
    | some connection =>
      rcases @tioCreateOrOpen_cases _ net r memory heap c connection hs hc calls with
        ⟨heap₁, result₁, hcall, hs₁, -⟩ | ⟨heap₁, d, e, hs₁, -, -, -, hcall⟩
      · obtain ⟨rfl, rfl⟩ := Prod.mk.inj (Option.some.inj (hcall.symm.trans h))
        exact hs₁
      · exact ih hs₁ (hcall ▸ h)

theorem returns_of_walk {k : Nat} (hs : Sound net heap) (hc : heap[c]? = some connection)
    (hwalk : walk (hop net r) k connection.place = none) : (tioCreateOrOpen net r k memory heap c).isSome := by
  induction k generalizing memory heap c connection with
  | zero => exact absurd hwalk (by simp)
  | succ k ih =>
    rcases @tioCreateOrOpen_cases _ net r memory heap c connection hs hc k with
      ⟨heap', result, hcall, -⟩ | ⟨heap', d, e, hs', he, -, hhop, hcall⟩
    · rw [hcall, Option.isSome_some]
    · rw [walk_succ, hhop, Option.bind_some] at hwalk
      rw [hcall]
      exact ih hs' he hwalk

theorem hasRoom {size : Nat} (hs : connection.Sound net size)
    (hlt : connection.clustersConnections.length < 2 ^ 30) : connection.HasRoom true := by
  have hfits := hs.fits
  unfold Connection.HasRoom Connection.bufferSizeAfter Connection.isFull
  by_cases hfull : connection.clustersConnectionsBufferSize = connection.clustersConnections.length
  · have hsize : connection.clustersConnections.length < connection.newBufferSize ∧
        connection.newBufferSize < 2 ^ 31 := by
      unfold Connection.newBufferSize
      split_ifs <;> omega
    rw [if_pos (by simpa [hfull] using hsize.2)]
    exact hsize.1
  · simp only [hfull, decide_false, Bool.false_and, Bool.false_eq_true, if_false]
    omega

/-- Where the walk does not end and no table is at its end, no number of calls is enough. -/
theorem never_returns (hs : Sound net heap) (hc : heap[c]? = some connection)
    (hsmall : (∀ d ∈ heap, d.clustersConnections.length < 2 ^ 30) ∨ connection.clustersConnections = [])
    (hwalk : ∀ k, walk (hop net r) k connection.place ≠ none) (calls : Nat) :
    tioCreateOrOpen net r calls (fun _ => true) heap c = none := by
  induction calls generalizing heap c connection with
  | zero => rfl
  | succ calls ih =>
    have hmem := List.mem_of_getElem? hc
    rcases @tioCreateOrOpen_cases _ net r (fun _ => true) heap c connection hs hc calls with
      ⟨-, -, -, -, hwhy⟩ | ⟨heap', d, e, hs', he, hnew, hhop, hcall⟩
    · have hlt : connection.clustersConnections.length < 2 ^ 30 :=
        hsmall.elim (fun h => h connection hmem) fun h => by simp [h]
      rcases hwhy with hend | hfull
      · exact absurd (by rw [walk_succ, hend, Option.bind_none]) (hwalk 1)
      · exact absurd (hasRoom (hs connection hmem) hlt) hfull
    · rw [hcall]
      refine ih hs' he ?_ fun k hk => hwalk (k + 1) (by rw [walk_succ, hhop, Option.bind_some, hk])
      -- a connection found in a table is in the same heap, and a new one has an empty table
      rcases hnew with ⟨rfl, htable⟩ | hnew
      · exact .inl (hsmall.resolve_right htable)
      · exact .inr hnew

/-! ## The calls of a program -/

inductive Call where
  | connect (host : Bytes) (port : Int16)
  | connectCluster (c : Nat) (host : Bytes) (port : Int16) (memory : Bool)
  | createOrOpen (c : Nat) (r : Request) (calls : Nat) (memory : Nat → Bool)

/-- Not enabled for a `tio_connect` that fails, and for a `tio_create_or_open` with more nested calls. -/
def step (net : Network ι) (heap : Heap ι) : Call → Option (Heap ι)
  | .connect host port => (tioConnect net heap host port).map Prod.fst
  | .connectCluster c host port memory => some (tioConnectCluster net memory heap c host port).1
  | .createOrOpen c r calls memory => (tioCreateOrOpen net r calls memory heap c).map Prod.fst

theorem step_sound {call : Call} (hs : Sound net heap) (h : step net heap call = some heap') : Sound net heap' := by
  cases call with
  | connect host port =>
    obtain ⟨x, hx, rfl⟩ := Option.map_eq_some_iff.mp h
    obtain ⟨server, hconnect, rfl⟩ := Option.map_eq_some_iff.mp hx
    exact hs.append hconnect
  | connectCluster c host port memory =>
    obtain rfl := Option.some.inj h
    cases hc : heap[c]? with
    | none => simpa [tioConnectCluster, hc] using hs
    | some connection => exact (hs.tioConnectCluster hc rfl).1
  | createOrOpen c r calls memory =>
    obtain ⟨x, hx, rfl⟩ := Option.map_eq_some_iff.mp h
    exact tioCreateOrOpen_sound hs hx

theorem run_sound {calls : List Call} (h : run (step net) [] calls = some heap) : Sound net heap :=
  run_invariant (fun _ _ _ hs => step_sound hs) (fun _ hd => absurd hd List.not_mem_nil) h

/-- The places that a directory can lead to, and the one that the name is opened from. -/
def reachable (net : Network ι) (name : Bytes) (connection : Connection ι) : Set (ι × Bytes) :=
  insert connection.place (Set.univ ×ˢ
    insert connection.host (Set.range fun server =>
      (cstr ((net.directory server name).getD [])).takeWhile (· ≠ 58)))

theorem finite_reachable [Finite ι] (name : Bytes) : (reachable net name connection).Finite :=
  ((Set.finite_univ).prod ((Set.finite_range _).insert _)).insert _

theorem host_address (host value : Bytes) :
    (address host value).1 = host ∨ (address host value).1 = (cstr value).takeWhile (· ≠ 58) := by
  unfold address
  simp only
  split_ifs with h
  · exact .inr rfl
  · exact .inl rfl

theorem hop_mem {p q : ι × Bytes} (hp : p ∈ reachable net r.name connection) (h : hop net r p = some q) :
    q ∈ reachable net r.name connection := by
  unfold hop at h
  split_ifs at h
  obtain ⟨value, hvalue, h⟩ := Option.bind_eq_some_iff.mp h
  obtain ⟨server, -, rfl⟩ := Option.map_eq_some_iff.mp h
  refine .inr ⟨Set.mem_univ _, ?_⟩
  rcases host_address p.2 value with hhost | hhost
  · rw [hhost]
    rcases hp with rfl | ⟨-, hp⟩
    · exact .inl rfl
    · exact hp
  · exact .inr ⟨p.1, by simp [hvalue, hhost]⟩

/-- In every state that the calls of a program reach, opening a name returns if the directories lead from no
place back to it, whatever memory there is; if they do, no number of nested calls is enough while memory lasts. -/
theorem returns_iff [Finite ι] {calls : List Call} (h : run (step net) [] calls = some heap)
    (hc : heap[c]? = some connection) :
    (¬ ComesBack (hop net r) connection.place → ∀ memory, Returns net r memory heap c) ∧
    (ComesBack (hop net r) connection.place → (∀ d ∈ heap, d.clustersConnections.length < 2 ^ 30) →
      ¬ Returns net r (fun _ => true) heap c) := by
  have hs := run_sound h
  constructor
  · intro hforward memory
    obtain ⟨k, hk⟩ := (walk_ends_iff (finite_reachable r.name) (.inl rfl) fun p q => hop_mem).mpr hforward
    exact ⟨k, returns_of_walk hs hc hk⟩
  · rintro hback hsmall ⟨k, hk⟩
    rw [never_returns hs hc (.inl hsmall) hback.walk_ne_none k] at hk
    exact absurd hk (by simp)

/-- A server that has the name itself, and one whose directory says so. -/
def twoServers : Network Bool where
  connect host _ := if host = ascii "a" then some false else if host = ascii "b" then some true else none
  accepts server r := r = openClusters || server && r.name = ascii "x"
  directory server name := if !server && name = ascii "x" then some (ascii "b:2605") else none

theorem returns_two_servers : ∃ heap connection, run (step twoServers) [] [.connect (ascii "a") 2605] = some heap ∧
    heap[0]? = some connection ∧ ∀ memory, Returns twoServers ⟨commandOpen, ascii "x", none⟩ memory heap 0 := by
  have hrun : run (step twoServers) [] [.connect (ascii "a") 2605] =
      some [newConnection twoServers false (ascii "a") 2605] := rfl
  refine ⟨_, newConnection twoServers false (ascii "a") 2605, hrun, rfl, ?_⟩
  refine (returns_iff hrun rfl).1 fun hback => ?_
  exact hback.walk_ne_none 2 (by decide +kernel)

/-- A server whose directory has its own address. -/
def ownAddress : Network Unit where
  connect _ _ := some ()
  accepts _ r := r = openClusters
  directory _ _ := some (ascii "a:2605")

theorem asks_itself_for_ever : ∃ heap, run (step ownAddress) [] [.connect (ascii "a") 2605] = some heap ∧
    ¬ Returns ownAddress ⟨commandOpen, ascii "x", none⟩ (fun _ => true) heap 0 := by
  have hrun : run (step ownAddress) [] [.connect (ascii "a") 2605] =
      some [newConnection ownAddress () (ascii "a") 2605] := rfl
  refine ⟨_, hrun, ?_⟩
  rintro ⟨calls, h⟩
  have hback : ComesBack (hop ownAddress ⟨commandOpen, ascii "x", none⟩) ((), ascii "a") :=
    ⟨0, 1, ((), ascii "a"), Nat.zero_lt_one, rfl, by decide +kernel⟩
  rw [never_returns (run_sound hrun) rfl (.inr rfl) hback.walk_ne_none calls] at h
  exact absurd h (by simp)

end Open

/-! ## One table -/

section Table

variable {net : Network ι} {memory : Bool} {heap heap' : Heap ι} {c : Nat} {connection : Connection ι}
  {host : Bytes} {port : UInt16}

/-- The port of a call is passed as a `short`. -/
structure ClusterCall where
  host : Bytes
  port : UInt16
  memory : Bool
  deriving DecidableEq, Repr

def call (net : Network ι) (c : Nat) (heap : Heap ι) (a : ClusterCall) : Heap ι × Option Nat :=
  tioConnectCluster net a.memory heap c a.host a.port.toInt16

def callStep (net : Network ι) (c : Nat) (heap : Heap ι) (a : ClusterCall) : Option (Heap ι) :=
  some (call net c heap a).1

def addressAt (heap : Heap ι) (d : Nat) : Option (Bytes × UInt16) := (heap[d]?).map fun e => (e.host, e.port)

/-- The addresses of the connections in the table of a connection. -/
def addresses (heap : Heap ι) (c : Nat) : List (Option (Bytes × UInt16)) :=
  ((heap[c]?).elim [] Connection.clustersConnections).map (addressAt heap)

/-- An address that is in the table has a port that a `short` holds, and for another one there is room. -/
def KeepsApart (c : Nat) (heap : Heap ι) (a : ClusterCall) : Prop :=
  (some (a.host, a.port) ∈ addresses heap c → a.port < 32768) ∧
  (some (a.host, a.port) ∉ addresses heap c → ∀ d ∈ heap[c]?, d.HasRoom a.memory)

instance (c : Nat) (heap : Heap ι) (a : ClusterCall) : Decidable (KeepsApart c heap a) :=
  inferInstanceAs (Decidable (
    (some (a.host, a.port) ∈ addresses heap c → a.port < 32768) ∧
    (some (a.host, a.port) ∉ addresses heap c → ∀ d ∈ heap[c]?, d.HasRoom a.memory)))

/-- The table has only connections, no two to one address. -/
structure Apart (heap : Heap ι) (c : Nat) : Prop where
  here : c < heap.length
  table : none ∉ addresses heap c
  nodup : (addresses heap c).Nodup

theorem addresses_eq (hc : heap[c]? = some connection) :
    addresses heap c = connection.clustersConnections.map (addressAt heap) := by
  rw [addresses, hc, Option.elim_some]

theorem address_of_search {d : Nat} (h : connection.search heap host port.toInt16 = some d) :
    d ∈ connection.clustersConnections ∧ addressAt heap d = some (host, port) := by
  obtain ⟨hd, e, he, hto⟩ := search_eq_some h
  obtain ⟨hhost, hport⟩ := address_of_isTo hto
  have hport' : e.port = port := by
    rw [← UInt16.toUInt16_toInt16 e.port, hport, UInt16.toUInt16_toInt16]
  exact ⟨hd, by rw [addressAt, he, Option.map_some, hhost, hport']⟩

theorem toInt_toInt16 (hport : port < 32768) : port.toInt16.toInt = port.toNat := by
  have hlt : port.toNat < 32768 := UInt16.lt_iff_toNat_lt.mp hport
  rw [Int16.toInt, UInt16.toBitVec_toInt16, BitVec.toInt_eq_toNat_of_lt, UInt16.toNat_toBitVec]
  rw [UInt16.toNat_toBitVec]
  omega

theorem search_ne_none (hport : port < 32768)
    (h : some (host, port) ∈ connection.clustersConnections.map (addressAt heap)) :
    connection.search heap host port.toInt16 ≠ none := by
  obtain ⟨d, hd, haddress⟩ := List.mem_map.mp h
  obtain ⟨e, he, heq⟩ := Option.map_eq_some_iff.mp haddress
  obtain ⟨rfl, rfl⟩ := Prod.mk.inj heq
  intro hnone
  refine absurd (List.find?_eq_none.mp hnone d hd) (not_not.mpr ?_)
  rw [he, Option.any_some, Connection.isTo_iff]
  exact ⟨rfl, (toInt_toInt16 hport).symm⟩

theorem addressAt_withNew (hc : heap[c]? = some connection) {d : Nat} (hd : d < heap.length) (e : Connection ι) :
    addressAt ((heap ++ [e]).set c (connection.withNew memory heap.length)) d = addressAt heap d := by
  unfold addressAt
  rw [List.getElem?_set]
  split_ifs with hcd hlt
  · rw [← hcd, hc]
    rfl
  · exact absurd (hcd ▸ hd) (by simp at hlt; omega)
  · rw [List.getElem?_append_left hd]

theorem Apart.withNew (h : Apart heap c) (hc : heap[c]? = some connection)
    (hnew : some (host, port) ∉ addresses heap c) {e : Connection ι} (he : (e.host, e.port) = (host, port)) :
    Apart ((heap ++ [e]).set c (connection.withNew memory heap.length)) c ∧
      addressAt ((heap ++ [e]).set c (connection.withNew memory heap.length)) heap.length = some (host, port) := by
  have hlt := h.here
  have hhere : ((heap ++ [e]).set c (connection.withNew memory heap.length))[c]? =
      some (connection.withNew memory heap.length) := List.getElem?_set_self (by simp; omega)
  have haddress : addressAt ((heap ++ [e]).set c (connection.withNew memory heap.length)) heap.length =
      some (host, port) := by
    rw [addressAt, List.getElem?_set_ne hlt.ne, List.getElem?_concat_length, Option.map_some, he]
  have hthere : ∀ d ∈ connection.clustersConnections, d < heap.length := by
    intro d hd
    by_contra hge
    refine h.table ?_
    rw [addresses_eq hc]
    exact List.mem_map.mpr ⟨d, hd, by rw [addressAt, List.getElem?_eq_none (by omega), Option.map_none]⟩
  have hall : addresses ((heap ++ [e]).set c (connection.withNew memory heap.length)) c =
      addresses heap c ++ [some (host, port)] := by
    have htable : (connection.withNew memory heap.length).clustersConnections =
        connection.clustersConnections ++ [heap.length] := rfl
    rw [addresses_eq hhere, htable, List.map_append, List.map_singleton, haddress, addresses_eq hc]
    congr 1
    exact List.map_congr_left fun d hd => addressAt_withNew hc (hthere d hd) e
  refine ⟨⟨by simp; omega, ?_, ?_⟩, haddress⟩
  · rw [hall]
    simpa using h.table
  · rw [hall]
    exact List.nodup_append.mpr ⟨h.nodup, List.nodup_singleton _, by rintro x hx y hy rfl; simp_all⟩

theorem Apart.call (h : Apart heap c) (hnet : ∀ host port, (net.connect host port).isSome) {a : ClusterCall}
    (ha : KeepsApart c heap a) : ∃ heap' d connection, Clusters.call net c heap a = (heap', some d) ∧
      Apart heap' c ∧ heap'[c]? = some connection ∧ d ∈ connection.clustersConnections ∧
      addressAt heap' d = some (a.host, a.port) := by
  obtain ⟨connection, hc⟩ : ∃ connection, heap[c]? = some connection := ⟨_, List.getElem?_eq_getElem h.here⟩
  have hunknown : connection.search heap a.host a.port.toInt16 = none →
      some (a.host, a.port) ∉ addresses heap c := by
    intro hnone hmem
    exact search_ne_none (ha.1 hmem) (addresses_eq hc ▸ hmem) hnone
  rcases @tioConnectCluster_cases _ net a.memory heap c connection a.host a.port.toInt16 hc with
    ⟨d, hfound, hcall⟩ | ⟨hnone, hwhy, hcall⟩ | ⟨hnone, -, server, -, hcall⟩
  · obtain ⟨hd, haddress⟩ := address_of_search hfound
    exact ⟨heap, d, connection, hcall, h, hc, hd, haddress⟩
  · rcases hwhy with hconnect | hfull
    · exact absurd (hnet a.host a.port.toInt16) (by simp [hconnect])
    · exact absurd (ha.2 (hunknown hnone) connection hc) hfull
  · have hnew := @Apart.withNew _ a.memory heap c connection a.host a.port h hc (hunknown hnone)
      (newConnection net server a.host a.port.toInt16) (by simp [newConnection])
    refine ⟨_, heap.length, _, hcall, hnew.1, List.getElem?_set_self ?_, ?_, hnew.2⟩
    · simpa using Nat.lt_succ_of_lt h.here
    · simp [Connection.withNew]

/-- In every run of calls on a connection with an empty table, where every server can be connected to and each
call keeps the table apart: it has no two connections to one address, and each call gives the one to its own. -/
theorem run_apart (hnet : ∀ host port, (net.connect host port).isSome) (hc : heap[c]? = some connection)
    (hempty : connection.clustersConnections = []) {calls : List ClusterCall}
    (hm : Meets (callStep net c) (KeepsApart c) heap calls) (hr : run (callStep net c) heap calls = some heap') :
    Apart heap' c ∧ ∀ a, KeepsApart c heap' a → ∃ heap'' d connection'', call net c heap' a = (heap'', some d) ∧
      heap''[c]? = some connection'' ∧ d ∈ connection''.clustersConnections ∧
      addressAt heap'' d = some (a.host, a.port) := by
  have hstart : Apart heap c :=
    ⟨(List.getElem?_eq_some_iff.mp hc).1, by simp [addresses_eq hc, hempty], by simp [addresses_eq hc, hempty]⟩
  have hstep : ∀ s a s', Apart s c → KeepsApart c s a → callStep net c s a = some s' → Apart s' c := by
    intro s a s' hs ha hstep
    obtain ⟨t, d, -, hcall, ht, -⟩ := hs.call hnet ha
    obtain rfl : t = s' := by simpa [callStep, hcall] using hstep
    exact ht
  have hapart := run_keeps hstep hstart hm hr
  refine ⟨hapart, fun a ha => ?_⟩
  obtain ⟨t, d, connection', hcall, -, ht, hd, haddress⟩ := hapart.call hnet ha
  exact ⟨t, d, connection', hcall, ht, hd, haddress⟩

/-- A network on which every address leads to one server. -/
def everywhere : Network Unit := ⟨fun _ _ => some (), fun _ _ => false, fun _ _ => none⟩

def anyConnection : Connection Unit := newConnection everywhere () (ascii "a") 2605

theorem run_apart_low_ports : ∃ heap', run (callStep everywhere 0) [anyConnection]
    [⟨ascii "b", 2605, true⟩, ⟨ascii "c", 40000, true⟩, ⟨ascii "b", 2605, true⟩] = some heap' ∧ Apart heap' 0 := by
  have hm : Meets (callStep everywhere 0) (KeepsApart 0) [anyConnection]
      [⟨ascii "b", 2605, true⟩, ⟨ascii "c", 40000, true⟩, ⟨ascii "b", 2605, true⟩] := by decide +kernel
  exact ⟨_, rfl, (run_apart (fun _ _ => rfl) rfl rfl hm rfl).1⟩

theorem high_port_twice : ∃ heap', run (callStep everywhere 0) [anyConnection]
    [⟨ascii "b", 40000, true⟩, ⟨ascii "b", 40000, true⟩] = some heap' ∧ ¬ (addresses heap' 0).Nodup :=
  ⟨_, rfl, by decide +kernel⟩

end Table

end Tiodb.Clusters
