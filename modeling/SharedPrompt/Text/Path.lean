/-!
# Paths

A path is bytes, which need not be text. It is split at slashes; empty parts and single dots name
nothing, except a dot that the path begins with.
-/

namespace SharedPrompt

structure FilePath where
  bytes : List UInt8
  deriving Repr, DecidableEq, Inhabited

namespace FilePath

def slash : UInt8 := 0x2f

def dot : UInt8 := 0x2e

def splitSlash : List UInt8 → List (List UInt8)
  | [] => [[]]
  | b :: bs =>
    if b = slash then [] :: splitSlash bs
    else match splitSlash bs with
      | [] => [[b]]
      | part :: parts => (b :: part) :: parts

def joinSlash : List (List UInt8) → List UInt8
  | [] => []
  | [part] => part
  | part :: parts => part ++ slash :: joinSlash parts

def namesNothing (part : List UInt8) : Bool := part.isEmpty || part == [dot]

/-- The start of a path that is never taken off by itself: the root, or the dot it begins with. -/
def splitRoot : List UInt8 → List UInt8 × List UInt8
  | [] => ([], [])
  | b :: rest =>
    if b = slash then ([slash], rest)
    else if b = dot ∧ (rest = [] ∨ rest.head? = some slash) then ([dot], rest)
    else ([], b :: rest)

/-- The parts of a path without those at its end that name nothing, last part first. -/
def lastParts (bytes : List UInt8) : List (List UInt8) :=
  (splitSlash bytes).reverse.dropWhile namesNothing

/-- The path without its last part, as it is written; empty if there is nothing to take off but
the start. -/
def parent (path : FilePath) : FilePath :=
  let (root, rest) := splitRoot path.bytes
  match lastParts rest with
  | [] => ⟨[]⟩
  | _ :: parts => ⟨root ++ joinSlash (parts.dropWhile namesNothing).reverse⟩

def ofString (s : String) : FilePath := ⟨s.toUTF8.data.toList⟩

instance : Coe String FilePath := ⟨ofString⟩

/-- The path as text, if it is any. -/
def text? (path : FilePath) : Option String := String.fromUTF8? ⟨path.bytes.toArray⟩

end FilePath

end SharedPrompt
