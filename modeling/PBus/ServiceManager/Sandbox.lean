import PBus.ScanDeps

/-! What `Manager::RunProcess` binds into the root of a service before `chroot`, for the
dependencies that `scan-deps` wrote. -/
namespace PBus.ServiceManager
open Paths ScanDeps

variable {root cwd path line below : Str} {base : Option Str} {dependencies libs : List Str}
  {links : Links}

end PBus.ServiceManager
