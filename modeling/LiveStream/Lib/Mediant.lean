import Mathlib

/-!
# Quotients of sums

A quotient of two sums lies between the least and the greatest of the quotients of their terms.
-/

namespace LiveStream
namespace Lib

variable {ι K : Type*} [Field K] [LinearOrder K] [IsStrictOrderedRing K] {l : List ι} {a b : ι → K}

end Lib
end LiveStream
