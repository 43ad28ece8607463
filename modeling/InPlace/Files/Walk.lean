import InPlace.Files.Disk
import InPlace.Text.Path

/-!
# Walking a file tree

All files below a directory, through links as well. A link is followed by the whole path to it, so it counts as
many links as there are on that. A link to a directory that is being walked is left out, as are directories with
certain names.
-/

namespace InPlace.Files.Tree

/-- The paths of the files below a directory, down to a depth. The directory is at `place` and has the path
`path`; `above` are the places of the directories that are being walked. -/
def filesWithin (t : Tree) (skipped : String → Bool) : Nat → List Place → Place → String → List String
  | 0, _, _, _ => []
  | k + 1, above, place, path =>
    match t.get? place with
    | some (.dir es) =>
      es.flatMap fun (name, entry) =>
        let inner := Text.Path.join path name
        match entry with
        | .file _ => [inner]
        | .dir _ =>
          if skipped name then []
          else filesWithin t skipped k ((place ++ [name]) :: above) (place ++ [name]) inner
        | .link _ =>
          match t.locatePath inner with
          | .ok (.found there) =>
            match t.get? there with
            | some (.file _) => [inner]
            | some (.dir _) =>
              -- a directory around this one would be walked without end
              if above.contains there || skipped name then []
              else filesWithin t skipped k (there :: above) there inner
            | _ => []
          | _ => []
    | _ => []

/-- The paths of the files below the directory with a path. On the way down a link leads to each directory
at most once, and between two links the way is no longer than the tree is deep. -/
def filesBelow (t : Tree) (skipped : String → Bool) (path : String) : List String :=
  match t.locatePath path with
  | .ok (.found place) => t.filesWithin skipped ((t.size + 1) * (t.size + 1)) [place] place path
  | _ => []

end InPlace.Files.Tree
