import Mathlib.Order.Basic

/-! The error numbers of the syscall interface. -/

namespace Orbit.Abi

inductive Errno where
  | eperm
  | enoent
  | esrch
  | eio
  | enoexec
  | ebadf
  | echild
  | eagain
  | enomem
  | efault
  | ebusy
  | eisdir
  | einval
  | emfile
  deriving DecidableEq, Repr

def Errno.code : Errno → Nat
  | .eperm => 1
  | .enoent => 2
  | .esrch => 3
  | .eio => 5
  | .enoexec => 8
  | .ebadf => 9
  | .echild => 10
  | .eagain => 11
  | .enomem => 12
  | .efault => 14
  | .ebusy => 16
  | .eisdir => 21
  | .einval => 22
  | .emfile => 24

/-- An error is returned to the caller as its negated number. -/
def Errno.toRet (e : Errno) : Int := -(e.code : Int)

/-- No error can be mistaken for a successful return. -/
theorem Errno.toRet_neg (e : Errno) : e.toRet < 0 := by
  cases e <;> decide

end Orbit.Abi
