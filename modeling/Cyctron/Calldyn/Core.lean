/- Cyctron/Calldyn/Core
   digest: The path of a socket library in call_local_dyn_socklibffi. -/

import Cyctron.Base.CString

set_option autoImplicit false
set_option relaxedAutoImplicit false

namespace Cyctron.Calldyn.Core

open Cyctron.Base.CString

/-- The library name carries its extension. -/
def hasExtension (libName : Bytes) : Bool :=
  strstr libName (ascii ".so") || strstr libName (ascii ".dylib") || strstr libName (ascii ".dll")

/-- The path that `call_local_dyn_socklibffi` hands to the loader. -/
def ffiPath (libName : Bytes) : Bytes :=
  if hasExtension libName then snprintf 256 (ascii "./core/" ++ libName)
  else snprintf 256 (ascii "./core/lib" ++ libName ++ ascii ".so")

end Cyctron.Calldyn.Core
