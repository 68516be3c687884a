import Mathlib.Data.List.Nodup
import Marvin.Fault

namespace Marvin.Server

/-! # The connection manager

`marvin/server/server_connection_manager.cpp`.  A handler is identified by its
address; its descriptor is that of its socket.  The stored callback is always
`p_start_accept` of the server, so only its presence is kept, and a function says
whether it calls or posts it.
-/

structure ConnectionHandler where
  address : Nat
  fd : Int
deriving DecidableEq, Repr

structure ServerConnectionManager where
  maxNumberOfConnections : Nat
  connections : List ConnectionHandler
  fdList : List Int
  allowMoreCallback : Bool
deriving DecidableEq, Repr

namespace ServerConnectionManager

def new (maxConnections : Nat) : ServerConnectionManager where
  maxNumberOfConnections := maxConnections
  connections := []
  fdList := []
  allowMoreCallback := false

def addresses (manager : ServerConnectionManager) : List Nat :=
  manager.connections.map ConnectionHandler.address

def descriptors (manager : ServerConnectionManager) : List Int :=
  manager.connections.map ConnectionHandler.fd

/-- The flag says whether the callback is called at once. -/
def allowAnotherConnection (manager : ServerConnectionManager) :
    Except Fault (ServerConnectionManager × Bool) := do
  if manager.allowMoreCallback then throw .allowMorePending
  if manager.connections.length ≥ manager.maxNumberOfConnections then
    return ({ manager with allowMoreCallback := true }, false)
  else return (manager, true)

def registerConnectionHandler (manager : ServerConnectionManager) (handler : ConnectionHandler) :
    Except Fault ServerConnectionManager := do
  if handler.fd ∈ manager.fdList then throw .descriptorRegistered
  if handler.address ∈ manager.addresses then throw .handlerRegistered
  return { manager with
    connections := manager.connections ++ [handler]
    fdList := manager.fdList ++ [handler.fd] }

/-- The flag says whether the stored callback is posted. -/
def pDeregister (manager : ServerConnectionManager) (handler : ConnectionHandler) :
    Except Fault (ServerConnectionManager × Bool) := do
  if handler.fd ∉ manager.fdList then throw .descriptorNotRegistered
  if handler.address ∉ manager.addresses then throw .handlerNotRegistered
  let manager := { manager with
    connections := manager.connections.filter (fun other => other.address ≠ handler.address)
    fdList := manager.fdList.filter (fun fd => fd ≠ handler.fd) }
  if manager.allowMoreCallback ∧ manager.connections.length < manager.maxNumberOfConnections then
    return ({ manager with allowMoreCallback := false }, true)
  else return (manager, false)

theorem allowAnotherConnection_full {manager : ServerConnectionManager}
    (absent : manager.allowMoreCallback = false)
    (full : manager.maxNumberOfConnections ≤ manager.connections.length) :
    manager.allowAnotherConnection = .ok ({ manager with allowMoreCallback := true }, false) := by
  simp only [allowAnotherConnection, absent, Bool.false_eq_true, if_false, ge_iff_le, if_pos full]
  rfl

theorem allowAnotherConnection_free {manager : ServerConnectionManager}
    (absent : manager.allowMoreCallback = false)
    (free : manager.connections.length < manager.maxNumberOfConnections) :
    manager.allowAnotherConnection = .ok (manager, true) := by
  simp only [allowAnotherConnection, absent, Bool.false_eq_true, if_false, ge_iff_le,
    if_neg (Nat.not_le.mpr free)]
  rfl

/-- Handlers and descriptors are distinct, and the list of descriptors is that of
the registered handlers. -/
structure Sound (manager : ServerConnectionManager) : Prop where
  addresses : manager.addresses.Nodup
  descriptors : manager.descriptors.Nodup
  listed : manager.fdList = manager.descriptors

variable {manager : ServerConnectionManager} {handler : ConnectionHandler}

theorem new_sound (maxConnections : Nat) : (new maxConnections).Sound :=
  ⟨List.nodup_nil, List.nodup_nil, rfl⟩

def registered (manager : ServerConnectionManager) (handler : ConnectionHandler) :
    ServerConnectionManager :=
  { manager with
    connections := manager.connections ++ [handler]
    fdList := manager.fdList ++ [handler.fd] }

theorem Sound.register (sound : manager.Sound) (unknown : handler.address ∉ manager.addresses)
    (unused : handler.fd ∉ manager.descriptors) :
    manager.registerConnectionHandler handler = .ok (manager.registered handler) ∧
      (manager.registered handler).Sound := by
  refine ⟨?_, ?_, ?_, ?_⟩
  · rw [← sound.listed] at unused
    simp only [registerConnectionHandler, if_neg unused, if_neg unknown]
    rfl
  · simpa [registered, ServerConnectionManager.addresses, List.nodup_append] using
      ⟨sound.addresses, fun other member same => unknown (same ▸ List.mem_map_of_mem member)⟩
  · simpa [registered, ServerConnectionManager.descriptors, List.nodup_append] using
      ⟨sound.descriptors, fun other member same => unused (same ▸ List.mem_map_of_mem member)⟩
  · simp [registered, sound.listed, ServerConnectionManager.descriptors]

theorem filter_ne_eq_erase {α : Type u} {β : Type v} [DecidableEq α] [DecidableEq β] {f : α → β}
    {entries : List α} {entry : α} (distinct : (entries.map f).Nodup) (member : entry ∈ entries) :
    entries.filter (fun other => f other ≠ f entry) = entries.erase entry := by
  rw [(List.Nodup.of_map f distinct).erase_eq_filter]
  apply List.filter_congr
  intro other present
  by_cases same : other = entry
  · simp [same]
  · have different : f other ≠ f entry := fun equal =>
      same (List.inj_on_of_nodup_map distinct present member equal)
    simp [same, different]

def without (manager : ServerConnectionManager) (handler : ConnectionHandler) :
    ServerConnectionManager :=
  { manager with
    connections := manager.connections.erase handler
    fdList := (manager.connections.erase handler).map ConnectionHandler.fd }

theorem Sound.without (sound : manager.Sound) (handler : ConnectionHandler) :
    (manager.without handler).Sound :=
  ⟨sound.addresses.sublist (List.erase_sublist.map _),
    sound.descriptors.sublist (List.erase_sublist.map _), rfl⟩

/-- A registered handler is removed, and the stored callback is posted if there
is one and a place is free. -/
theorem Sound.deregister (sound : manager.Sound) (member : handler ∈ manager.connections) :
    manager.pDeregister handler =
      if manager.allowMoreCallback ∧
          (manager.without handler).connections.length < manager.maxNumberOfConnections then
        .ok ({ manager.without handler with allowMoreCallback := false }, true)
      else .ok (manager.without handler, false) := by
  have known : handler.address ∈ manager.addresses := List.mem_map_of_mem member
  have used : handler.fd ∈ manager.fdList := sound.listed ▸ List.mem_map_of_mem member
  have connections : manager.connections.filter (fun other => other.address ≠ handler.address) =
      manager.connections.erase handler := filter_ne_eq_erase sound.addresses member
  have fds : manager.fdList.filter (fun fd => fd ≠ handler.fd) =
      (manager.connections.erase handler).map ConnectionHandler.fd := by
    rw [sound.listed, ServerConnectionManager.descriptors, List.filter_map,
      ← filter_ne_eq_erase sound.descriptors member]
    rfl
  simp only [pDeregister, not_true_eq_false, if_false, known, used, connections, fds, bind,
    Except.bind, pure, Except.pure]
  rfl

theorem length_without (member : handler ∈ manager.connections) :
    (manager.without handler).connections.length + 1 = manager.connections.length :=
  List.length_erase_add_one member

theorem addresses_without {address : Nat} (handler : ConnectionHandler)
    (unknown : address ∉ manager.addresses) : address ∉ (manager.without handler).addresses :=
  fun member => unknown ((List.erase_sublist.map _).subset member)

theorem descriptors_without {fd : Int} (handler : ConnectionHandler)
    (unused : fd ∉ manager.descriptors) : fd ∉ (manager.without handler).descriptors :=
  fun member => unused ((List.erase_sublist.map _).subset member)

end ServerConnectionManager

end Marvin.Server
