import PDocker.Context.DockerIgnore
import PDocker.Data.Ustar

/-!
# The archive of a build context

How the application writes a context without a `.dockerignore` as an archive.
Texts are counted in UTF-16 where the source goes over them character by
character. The children of a directory are in the order in which they are sorted.
-/

set_option autoImplicit false

namespace PDocker.Context.Tar

open Data Ustar

abbrev FileName : Type := { name : Text // name ≠ [] ∧ '/' ∉ name ∧ Char.ofNat 0 ∉ name }

abbrev LinkTarget : Type := { target : Text // target ≠ [] ∧ Char.ofNat 0 ∉ target }

/-- `unixMode` says whether the attribute `unix:mode` can be read. -/
structure FileStat where
  mode : Nat
  permissions : mode < 4096
  mtimeMillis : Int
  unixMode : Bool
  canExecute : Bool

inductive Tree where
  | file (stat : FileStat) (data : Bytes)
  | symlink (stat : FileStat) (target : LinkTarget)
  | dir (stat : FileStat) (children : List (FileName × Tree))

mutual

def Tree.Distinct : Tree → Prop
  | .file _ _ => True
  | .symlink _ _ => True
  | .dir _ children => DistinctChildren children

def DistinctChildren : List (FileName × Tree) → Prop
  | [] => True
  | (name, tree) :: rest => (∀ other ∈ rest, other.1 ≠ name) ∧ tree.Distinct ∧ DistinctChildren rest

end

structure ContextDir where
  children : List (FileName × Tree)
  distinct : DistinctChildren children

def tarPath (path : List FileName) : Text := ['/'].intercalate (path.map (·.val))

/-- The 64 bits of a `Long`, as `%o` takes them -/
def unsigned (value : Int) : Nat := (value % 2 ^ 64).toNat

/-- `%0…o` -/
def formatOctal (width : Nat) (value : Int) : Text := (numeral 8 (unsigned value)).leftpad width '0'

def putOctal (length : Nat) (value : Int) : Bytes := octalField length (formatOctal (length - 1) value)

def putString (length : Nat) (value : Text) : Bytes := textField length (utf8 value)

/-- What the `Char`s of a character are on their own: half of a pair is `?`. -/
def loneChars (char : Char) : Text := if char.toNat < 65536 then [char] else ['?', '?']

def trimLoop : Nat → Text → Text
  | _, [] => []
  | left, char :: rest =>
      let size := (String.utf8EncodeChar char).length
      if left < size then [] else char :: trimLoop (left - size) rest

def trimUtf8ToMax (value : Text) (maxBytes : Nat) : Text := trimLoop maxBytes (value.flatMap loneChars)

def slashSplits : Text → List (Text × Text)
  | [] => []
  | char :: rest =>
      let later := (slashSplits rest).map fun (before, behind) => (char :: before, behind)
      if char = '/' then ([], rest) :: later else later

def splitUstarName (name : Text) : Option (Text × Text) :=
  if (utf8 name).length ≤ 100 then some (name, [])
  else
    ((slashSplits name).reverse.find? fun (before, behind) =>
      (utf8 before).length ≤ 155 && (utf8 behind).length ≤ 100).map fun (before, behind) => (behind, before)

def lastName (name instead : Text) : Text :=
  let last := lastPart '/' name
  if isBlank last then instead else last

def headerFields (name : Text) (size : Nat) (mtime : Int) (mode : Nat) (typeFlag : Char) (linkName : Text)
    (checksum : Bytes) : List Bytes :=
  let (entryName, before) :=
    (splitUstarName name).getD
      (trimUtf8ToMax (lastName name ['p', 'a', 'x', '-', 'p', 'a', 't', 'h']) 100, [])
  [putString 100 entryName, putOctal 8 mode, putOctal 8 0, putOctal 8 0, putOctal 12 size, putOctal 12 mtime,
    checksum, [UInt8.ofNat typeFlag.toNat],
    putString 100 (if linkName = [] then [] else trimUtf8ToMax linkName 100),
    putString 6 ['u', 's', 't', 'a', 'r'], putString 2 ['0', '0'], List.replicate 32 0, List.replicate 32 0,
    List.replicate 8 0, List.replicate 8 0, putString 155 before, List.replicate 12 0]

/-- `%06o` with a NUL byte and a space -/
def checksumField (sum : Nat) : Bytes := (utf8 (formatOctal 6 sum ++ [Char.ofNat 0, ' '])).take 8

def writeTarHeader (name : Text) (size : Nat) (mtime : Int) (mode : Nat) (typeFlag : Char) (linkName : Text) :
    Bytes :=
  let fields := headerFields name size mtime mode typeFlag linkName
  (fields (checksumField (byteSum (fields (List.replicate 8 32)).flatten))).flatten

def recordText (key value : Text) (length : Nat) : Text :=
  numeral 10 length ++ ' ' :: (key ++ '=' :: (value ++ ['\n']))

/-- The loop of `paxRecord`, which ends before the steps are used up -/
def recordLoop (key value : Text) : Nat → Nat → Text
  | 0, length => recordText key value length
  | steps + 1, length =>
      let record := recordText key value length
      let actual := (utf8 record).length
      if actual = length then record else recordLoop key value steps actual

def paxRecord (key value : Text) : Text :=
  recordLoop key value (2 * (utf8 (recordText key value 0)).length) 0

def padding (size : Nat) : Bytes := List.replicate ((512 - size % 512) % 512) 0

def paxRecords (name linkName : Text) : List (Text × Text) :=
  (if splitUstarName name = none then [(['p', 'a', 't', 'h'], name)] else []) ++
    if (utf8 linkName).length > 100 then [(['l', 'i', 'n', 'k', 'p', 'a', 't', 'h'], linkName)] else []

def paxBody (records : List (Text × Text)) : Bytes :=
  utf8 (records.flatMap fun record => paxRecord record.1 record.2)

def writePaxHeaderIfNeeded (name linkName : Text) (mtime : Int) : Bytes :=
  let records := paxRecords name linkName
  if records = [] then []
  else
    let body := paxBody records
    let safeName := trimUtf8ToMax
      (['P', 'a', 'x', 'H', 'e', 'a', 'd', 'e', 'r', 's', '/'] ++ lastName name ['p', 'a', 't', 'h']) 100
    writeTarHeader safeName body.length mtime 420 'x' [] ++ body ++ padding body.length

def writeTarEntry (name : Text) (data : Bytes) (mtime : Int) (mode : Nat) (typeFlag : Char) (linkName : Text) :
    Bytes :=
  writePaxHeaderIfNeeded name linkName mtime ++ writeTarHeader name data.length mtime mode typeFlag linkName ++
    data ++ padding data.length

def linkAwareMtime (stat : FileStat) : Int := stat.mtimeMillis.tdiv 1000

def tarMode (stat : FileStat) (isDir isSymlink : Bool) : Nat :=
  if stat.unixMode then stat.mode
  else if isSymlink then 511
  else if isDir then 493
  else if stat.canExecute then 493
  else 420

mutual

def addTarPath (path : List FileName) : Tree → Bytes
  | .file stat data =>
      let rel := forwardSlashes (tarPath path)
      if isBlank rel then []
      else writeTarEntry rel data (linkAwareMtime stat) (tarMode stat false false) '0' []
  | .symlink stat target =>
      let rel := forwardSlashes (tarPath path)
      if isBlank rel then []
      else writeTarEntry rel [] (linkAwareMtime stat) (tarMode stat false true) '2' (forwardSlashes target.val)
  | .dir stat children =>
      let rel := forwardSlashes (tarPath path)
      if isBlank rel then []
      else
        writeTarEntry (trimEndSlashes rel ++ ['/']) [] (linkAwareMtime stat) (tarMode stat true false) '5' [] ++
          addTarPaths path children

def addTarPaths (path : List FileName) : List (FileName × Tree) → Bytes
  | [] => []
  | (name, tree) :: rest => addTarPath (path ++ [name]) tree ++ addTarPaths path rest

end

def createTar (root : ContextDir) : Option Bytes :=
  let out := addTarPaths [] root.children ++ List.replicate 1024 0
  if out.length < 2 ^ 31 then some out else none

end PDocker.Context.Tar
