import Determinization.PathFault

/-!
# Access to files

All that the program needs of the world is to read whole files and to write whole files, each
named by a path.  `FileAccess m` provides the two as actions of a monad `m`, so that one
definition of the program serves the files of a machine as well as those of a volume.
-/

namespace Determinization

structure FileAccess (m : Type → Type) where
  readFile : String → m (Except PathFault (List UInt8))
  writeFile : String → List UInt8 → m (Except PathFault Unit)

end Determinization
