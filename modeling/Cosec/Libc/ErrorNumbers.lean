import Mathlib.Init

/-!
# Error numbers

The error codes of `sys/errno.h` which the modelled functions return.
-/

namespace Cosec.Libc.ErrorNumbers

/-- The codes of `sys/errno.h` used by the file system and the allocators. -/
inductive Errno where
  | enoent
  | eio
  | enxio
  | ebadf
  | enomem
  | eexist
  | exdev
  | enodev
  | enotdir
  | eisdir
  | einval
  | emfile
  | espipe
  | enosys
  | etodo
  | ekern
deriving DecidableEq, Repr

end Cosec.Libc.ErrorNumbers
