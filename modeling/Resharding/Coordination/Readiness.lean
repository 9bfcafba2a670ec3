import Resharding.Fleet.Schedule
import Resharding.Store.Format

/-!
Checks of the nodes before a rebalancing starts.

Nodes are asked one after the other in the order of the cluster, and the first one that is not fit
ends the check.
-/

namespace Resharding.Fleet

/-- Whether every node is in the normal state. -/
def checkStates (f : Fleet) : List Node → Except Error Unit × Fleet
  | [] => (.ok (), f)
  | n :: rest =>
    match f.call n.id .state with
    | (.error e, f) => (.error (.noAnswer n.id e), f)
    | (.ok state, f) =>
      if state.isNormal then checkStates f rest
      else (.error (.notNormal n.id n.host state), f)

/-- Refuses a cluster with a node that is not in the normal state. -/
def checkNormal (f : Fleet) (c : Cluster) : Except Error Unit × Fleet := f.checkStates c.nodes

/-- The first of some stores, with its format, in which partitions cannot be moved. -/
def immovable? (formats : SortedMap String String) : Option (String × String) :=
  formats.toList.find? fun e => StorageFormat.ofCode? e.2 != some .movable

/-- Whether the named stores are movable on every node. -/
def checkFormatsOf (f : Fleet) (stores : List String) : List Node → Except Error Unit × Fleet
  | [] => (.ok (), f)
  | n :: rest =>
    match f.call n.id (.formats stores) with
    | (.error e, f) => (.error (.noAnswer n.id e), f)
    | (.ok formats, f) =>
      match immovable? formats with
      | some (store, format) =>
        (.error (.immovableStore n.id store format StorageFormat.movable.code), f)
      | none => checkFormatsOf f stores rest

/-- Refuses a cluster with a read-only store that cannot be moved. Nodes without partitions hold no
data and are not asked, and without read-only stores no node is. -/
def checkFormats (f : Fleet) (c : Cluster) (stores : List StoreDefinition) :
    Except Error Unit × Fleet :=
  match StoreDefinition.readOnly stores with
  | [] => (.ok (), f)
  | readOnly =>
    f.checkFormatsOf (readOnly.map (·.name)) (c.nodes.filter fun n => !n.partitions.isEmpty)

end Resharding.Fleet
