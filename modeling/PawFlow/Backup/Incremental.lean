import PawFlow.Lib.Bytes
import PawFlow.Lib.PyDict
import PawFlow.Lib.PyString

/-!
# Incremental backups

`incremental_backup/main.py` and `restore_from_backup/main.py`. The destination is what lies below
one root; its texts are taken as the envelopes they carry. Encryption, JSON and SHA-256 are
parameters. A run ends early where one of its writes to the destination raises.
-/

namespace PawFlow.Backup

open PawFlow.Lib

/-- A path below the root, by its parts. -/
abbrev RelPath := List String

structure FileMeta where
  size : Nat
  mtime : Int
  sha256 : String
deriving DecidableEq

structure Manifest where
  counter : Nat
  createdAt : String
  files : PyDict RelPath FileMeta
deriving DecidableEq

/-- `_encrypt` and `_decrypt` under the one passphrase, of a file and of the JSON text of a
manifest. The number stands for the random salt and nonce. -/
structure Crypto (E : Type) where
  sha256 : Bytes → String
  encrypt : Nat → Bytes → E
  decrypt : E → Option Bytes
  encryptManifest : Nat → Manifest → E
  decryptManifest : E → Option Manifest
  sha256_ne : ∀ content, sha256 content ≠ ""
  decrypt_encrypt : ∀ salt content, decrypt (encrypt salt content) = some content
  decryptManifest_encryptManifest : ∀ salt manifest,
    decryptManifest (encryptManifest salt manifest) = some manifest

/-! ## The source -/

structure SourceFile where
  /-- The directories and the name of the file. -/
  path : RelPath
  mtime : Int
  /-- `none` where `stat` or `open` raises. -/
  content : Option Bytes
deriving DecidableEq

/-- What `os.walk` finds below the root, in its order. -/
structure Source where
  files : List SourceFile
  nodup : (files.map SourceFile.path).Nodup

def defaultExclude : List String := [".git", "node_modules", "__pycache__", ".venv"]

/-- `_walk_source`: no directory above the file and not the file itself is excluded. -/
def walkSource (source : Source) (exclude : List String) : List SourceFile :=
  source.files.filter fun f => !f.path.any fun part => part ∈ exclude

/-! ## The destination -/

structure Dest (E : Type) where
  pointer : Option E := none
  /-- `manifests/`, by file name. -/
  manifests : PyDict (List Char) E := []
  /-- `blobs/`, by digest. -/
  blobs : PyDict String E := []
deriving DecidableEq

inductive Target
  | pointer
  | manifest (name : List Char)
  | blob (digest : String)
deriving DecidableEq

variable {E : Type}

def Dest.put (d : Dest E) (target : Target) (e : E) : Dest E :=
  match target with
  | .pointer => { d with pointer := some e }
  | .manifest name => { d with manifests := d.manifests.set name e }
  | .blob digest => { d with blobs := d.blobs.set digest e }

/-- `f"{counter:012d}.json.enc"`. -/
def manifestName (counter : Nat) : List Char := formatDecimal 12 counter ++ ".json.enc".toList

/-! ## A run -/

/-- One run of `incremental_backup`, with what the destination does in it. -/
structure Run where
  source : Source
  exclude : List String := []
  keepManifests : Int := 0
  createdAt : String := ""
  /-- The salt and nonce of each encryption. -/
  salt : Nat → Nat := id
  /-- The read of `manifest.json.enc` fails. -/
  readFails : Bool := false
  /-- How many writes succeed before one raises; `none` where none does. -/
  writes : Option Nat := none
  listFails : Bool := false
  deleteFails : List Char → Bool := fun _ => false

def Run.excluded (r : Run) : List String := r.exclude ++ defaultExclude

/-- `int(args.get("keep_manifests") or 30)`. -/
def Run.keep (r : Run) : Int := if r.keepManifests = 0 then 30 else r.keepManifests

/-- Where a run stands. -/
structure Progress (E : Type) where
  dest : Dest E
  writes : Option Nat
  aborted : Bool := false
  currentFiles : PyDict RelPath FileMeta := []
  uploaded : Nat := 0
  unchanged : Nat := 0
  errors : List RelPath := []

def Progress.destWrite (p : Progress E) (target : Target) (e : E) : Progress E :=
  if p.writes = some 0 then { p with aborted := true }
  else { p with dest := p.dest.put target e, writes := p.writes.map (· - 1) }

namespace Crypto

variable (c : Crypto E)

def lastManifest (d : Dest E) (r : Run) : Option Manifest :=
  if r.readFails then none else d.pointer.bind c.decryptManifest

/-- The body of the loop over the source. -/
def backupFile (lastFiles : PyDict RelPath FileMeta) (salt : Nat → Nat) (p : Progress E)
    (f : SourceFile) : Progress E :=
  if p.aborted then p
  else match f.content with
    | none => { p with errors := p.errors ++ [f.path] }
    | some content =>
      let digest := c.sha256 content
      let p := { p with
        currentFiles := p.currentFiles.set f.path
          { size := content.length, mtime := f.mtime, sha256 := digest } }
      if (lastFiles.get? f.path).any fun prior => prior.sha256 = digest then
        { p with unchanged := p.unchanged + 1 }
      else
        let p := p.destWrite (.blob digest) (c.encrypt (salt p.uploaded) content)
        { p with uploaded := p.uploaded + 1 }

/-- The loop over the source. -/
def backupFiles (d : Dest E) (r : Run) : Progress E :=
  let lastFiles := ((c.lastManifest d r).map Manifest.files).getD []
  (walkSource r.source r.excluded).foldl (c.backupFile lastFiles r.salt)
    { dest := d, writes := r.writes }

/-- The number of the manifest. -/
def nextCounter (d : Dest E) (r : Run) : Nat :=
  ((c.lastManifest d r).map Manifest.counter).getD 0 + 1

/-- The manifest is written, first under the name that the next run reads. -/
def publish (d : Dest E) (r : Run) : Progress E :=
  let p := c.backupFiles d r
  if p.aborted then p
  else
    let counter := c.nextCounter d r
    let e := c.encryptManifest (r.salt p.uploaded)
      { counter, createdAt := r.createdAt, files := p.currentFiles }
    let p := p.destWrite .pointer e
    if p.aborted then p
    else p.destWrite (.manifest (manifestName counter)) e

end Crypto

/-- The names of the manifests, as `sorted` orders them. -/
def sortedNames (d : Dest E) : List (List Char) :=
  ((d.manifests.map Prod.fst).filter fun name =>
    ".json.enc".toList.isSuffixOf name).insertionSort fun a b => ¬ b < a

/-- `names[:-keep] if keep > 0 else []`. -/
def staleNames (keep : Int) (names : List (List Char)) : List (List Char) :=
  if 0 < keep then names.take (names.length - keep.toNat) else []

def pruneOldManifests (d : Dest E) (r : Run) : Dest E :=
  if r.listFails then d
  else
    let names := sortedNames d
    { d with
      manifests := (staleNames r.keep names).foldl (fun manifests stale =>
        if r.deleteFails stale then manifests else manifests.erase stale) d.manifests }

namespace Crypto

variable (c : Crypto E)

/-- `main` of `incremental_backup`. -/
def run (d : Dest E) (r : Run) : Dest E :=
  let p := c.publish d r
  if p.aborted then p.dest else pruneOldManifests p.dest r

/-! ## Restore -/

structure Restored where
  files : PyDict RelPath Bytes := []
  failed : List RelPath := []
deriving DecidableEq

def restoreFile (blobs : PyDict String E) (t : Restored) (file : RelPath × FileMeta) : Restored :=
  if file.2.sha256 = "" then { t with failed := t.failed ++ [file.1] }
  else match (blobs.get? file.2.sha256).bind c.decrypt with
    | none => { t with failed := t.failed ++ [file.1] }
    | some plaintext => { t with files := t.files.set file.1 plaintext }

/-- `main` of `restore_from_backup` into an empty directory, for this text of the manifest; `none`
where it does not decrypt. -/
def restore (d : Dest E) (encManifest : E) : Option Restored :=
  (c.decryptManifest encManifest).map fun manifest =>
    manifest.files.foldl (c.restoreFile d.blobs) {}

end Crypto

end PawFlow.Backup
