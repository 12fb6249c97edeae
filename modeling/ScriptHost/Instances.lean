/-!
# Instances of the core library

Powers of whole numbers and equality of byte strings are those of the core library, also where
a larger library brings instances of its own.
-/

set_option autoImplicit false

attribute [instance (high)] instPowNat ByteArray.instDecidableEq

attribute [default_instance 20000] instPowNat
