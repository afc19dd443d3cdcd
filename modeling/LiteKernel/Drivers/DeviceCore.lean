import Mathlib.Data.List.Basic
import Mathlib.Logic.Function.Basic
import Mathlib.Tactic

/-!
# Kernel objects and `device_add`

The model of the kernel objects of `lib/kobject.c`, of `kref` and of `device_add` in
`drivers/base/core.c`, with the device lists of `drivers/base/bus.c` and
`drivers/base/class.c`.

A kernel object is named by its address, and zero is the null pointer; a device is named
by the address of its kernel object, and a kset by that of its own. The children of an
object are a list of pointers: `children` is the first of them and `next` the one behind
an object. The doubly linked lists of the devices kset, of a bus and of a class are
lists. A call that yields `none` has not returned within the bound on its rounds. The entries
of sysfs hold no references and are left out.

Main results:

- Definition `deviceAdd`: the call, with its error path.
-/

namespace LiteKernel.Drivers

open Function

/-- The kernel objects, and the lists that devices are put on. -/
structure DeviceCore where
  parent : Nat → Nat
  children : Nat → Nat
  next : Nat → Nat
  kset : Nat → Nat
  refcount : Nat → Nat
  /-- The release function of the object has been called. -/
  released : Nat → Bool
  devicesKset : Nat
  /-- The objects on `devices_kset->list`. -/
  ksetList : List Nat
  bus : Nat → Option Nat
  /-- Whether `bus->p`, with the list of the devices, is allocated. -/
  busPrivate : Nat → Bool
  cls : Nat → Option Nat
  busDevices : Nat → List Nat
  classDevices : Nat → List Nat
  /-- The bus whose list the `knode_bus` of a device is on. -/
  knodeBus : Nat → Option Nat

def krefMax : Nat := 0xFFFFFFFF

namespace DeviceCore

/-! ## References -/

def kobjectGet (s : DeviceCore) (k : Nat) : DeviceCore :=
  if s.refcount k < krefMax then { s with refcount := update s.refcount k (s.refcount k + 1) }
  else s

def kobjectPut (s : DeviceCore) (k : Nat) : DeviceCore :=
  if s.refcount k = 0 then s
  else
    let s := { s with refcount := update s.refcount k (s.refcount k - 1) }
    if 0 < s.refcount k then s else { s with released := update s.released k true }

/-! ## The tree -/

def kobjectParent (s : DeviceCore) (k : Nat) : Nat :=
  if s.parent k ≠ 0 then s.parent k
  else if s.kset k ≠ 0 ∧ s.kset k ≠ k then s.kset k
  else 0

/-- The loop of `kobject_child_linked`. -/
def childLinkedFrom : Nat → DeviceCore → Nat → Nat → Option Bool
  | 0, _, _, _ => none
  | fuel + 1, s, cur, child =>
    if cur = 0 then some false
    else if cur = child then some true
    else childLinkedFrom fuel s (s.next cur) child

/-- The pointer that `link` of `kobject_child_unlink` is the address of. -/
inductive LinkAt where
  | children (k : Nat)
  | next (k : Nat)
  deriving DecidableEq

def readLink (s : DeviceCore) : LinkAt → Nat
  | .children k => s.children k
  | .next k => s.next k

def writeLink (s : DeviceCore) (l : LinkAt) (v : Nat) : DeviceCore :=
  match l with
  | .children k => { s with children := update s.children k v }
  | .next k => { s with next := update s.next k v }

def setNext (s : DeviceCore) (k v : Nat) : DeviceCore :=
  { s with next := update s.next k v }

/-- The loop of `kobject_child_unlink`. -/
def childUnlinkFrom : Nat → DeviceCore → LinkAt → Nat → Option DeviceCore
  | 0, _, _, _ => none
  | fuel + 1, s, link, child =>
    if s.readLink link = 0 then some s
    else if s.readLink link = child then some ((s.writeLink link (s.next child)).setNext child 0)
    else childUnlinkFrom fuel s (.next (s.readLink link)) child

def kobjectChildUnlink (fuel : Nat) (s : DeviceCore) (parent child : Nat) : Option DeviceCore :=
  if parent = 0 ∨ child = 0 then some s else childUnlinkFrom fuel s (.children parent) child

/-- The object becomes the first child of another one. -/
def pushChild (s : DeviceCore) (parent k : Nat) : DeviceCore :=
  { s with
    next := update s.next k (s.children parent)
    children := update s.children parent k }

def kobjectAdd (fuel : Nat) (s : DeviceCore) (k : Nat) : Option DeviceCore :=
  let parent := s.kobjectParent k
  if parent = 0 then some s
  else
    (childLinkedFrom fuel s (s.children parent) k).map fun linked =>
      if linked then s else s.pushChild parent k

def kobjectDel (fuel : Nat) (s : DeviceCore) (k : Nat) : Option DeviceCore :=
  (s.kobjectChildUnlink fuel (s.kobjectParent k) k).map fun s =>
    { s with parent := update s.parent k 0, next := update s.next k 0 }

/-! ## The devices kset -/

def ksetAdd (fuel : Nat) (s : DeviceCore) (k : Nat) : Option DeviceCore :=
  if s.kset k = s.devicesKset ∧ k ∈ s.ksetList then some s
  else
    let s := s.kobjectGet s.devicesKset
    let s := { s with kset := update s.kset k s.devicesKset, ksetList := s.ksetList ++ [k] }
    s.kobjectAdd fuel k

def ksetRemove (s : DeviceCore) (k : Nat) : DeviceCore :=
  if s.kset k ≠ s.devicesKset then s
  else
    let s := { s with ksetList := s.ksetList.erase k, kset := update s.kset k 0 }
    s.kobjectPut s.devicesKset

/-! ## Devices -/

/-- The bus of a device, if `bus_devices_klist` finds a list for it. -/
def busKlist (s : DeviceCore) (d : Nat) : Option Nat :=
  (s.bus d).filter s.busPrivate

/-- The list of the bus takes a reference to the device. -/
def busAdd (s : DeviceCore) (d : Nat) : DeviceCore :=
  match s.busKlist d with
  | none => s
  | some b =>
    let s := { s with knodeBus := update s.knodeBus d (some b) }.kobjectGet d
    { s with busDevices := update s.busDevices b (s.busDevices b ++ [d]) }

def busDel (s : DeviceCore) (d : Nat) : DeviceCore :=
  match s.bus d, s.knodeBus d with
  | some _, some b =>
    { s with
      busDevices := update s.busDevices b ((s.busDevices b).erase d)
      knodeBus := update s.knodeBus d none }.kobjectPut d
  | _, _ => s

def classAdd (s : DeviceCore) (d : Nat) : DeviceCore :=
  match s.cls d with
  | none => s
  | some c => { s with classDevices := update s.classDevices c (s.classDevices c ++ [d]) }

def classDel (s : DeviceCore) (d : Nat) : DeviceCore :=
  match s.cls d with
  | none => s
  | some c => { s with classDevices := update s.classDevices c ((s.classDevices c).erase d) }

/-- The first part of `device_add`, up to the request for the device node. -/
def deviceLink (fuel : Nat) (s : DeviceCore) (d : Nat) : Option DeviceCore :=
  ((s.kobjectGet d).ksetAdd fuel d).map fun s =>
    ({ s with knodeBus := update s.knodeBus d none }.busAdd d).classAdd d

/-- The part of `device_add` at `err_links`. -/
def deviceUnlink (fuel : Nat) (s : DeviceCore) (d : Nat) : Option DeviceCore :=
  ((((s.classDel d).busDel d).ksetRemove d).kobjectDel fuel d).map fun s => s.kobjectPut d

/--
The function `device_add`: `ret` is the answer of `devtmpfs_create_node`, and
`attach` what the probing of drivers does.
-/
def deviceAdd (fuel : Nat) (attach : DeviceCore → DeviceCore) (s : DeviceCore) (d : Nat)
    (ret : Int) : Option (Int × DeviceCore) :=
  (s.deviceLink fuel d).bind fun s =>
    if ret = 0 then some (0, (attach s).kobjectPut d)
    else (s.deviceUnlink fuel d).map fun s => (ret, s)

end DeviceCore
end LiteKernel.Drivers
