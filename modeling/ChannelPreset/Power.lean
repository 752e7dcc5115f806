/-!
# Powers

The powers of numbers are the ones of the core library in every module, whatever else a module
imports.
-/

attribute [instance (2000)] instPowNat
attribute [default_instance 20000] instPowNat
