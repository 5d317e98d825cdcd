import ImportHarvest.Disk.Basic
/-!
What a change of the file system comes to: the files that are new or hold something else.
-/

namespace ImportHarvest

open Text

mutual
/-- the files of a node at a place, with their places, in listing order -/
def Node.files (place : Place) : Node → List (Place × Octets)
  | .file content => [(place, content)]
  | .directory children => childFiles place children
  | .link _ => []
  | .special _ => []
/-- the files of the children of a directory -/
def Node.childFiles (place : Place) : List (String × Node) → List (Place × Octets)
  | [] => []
  | (name, n) :: rest => n.files (place ++ [name]) ++ childFiles place rest
end

/-- the files that are not the same in an earlier file system -/
def Disk.changes (before after : Disk) : List (Place × Octets) :=
  (after.top.files []).filter fun (place, content) =>
    match before.at? place with
    | some (.file old) => old ≠ content
    | _ => true

end ImportHarvest
