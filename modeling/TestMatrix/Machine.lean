import TestMatrix.Platform

/-! # A machine in memory

A platform whose files, output and log are one value. What else may happen to a system call than the
tree of files says (a full disk, a missing permission) is part of the machine. -/

namespace TestMatrix

/-- A system call fails whatever the files are. If it was to write data, a number of bytes may have been
written. -/
structure Trouble where
  error : FileError
  written : Nat

structure Machine where
  files : FileSystem
  /-- What befalls the system calls to come, in their order; behind the end of the list nothing does. -/
  troubles : List (Option Trouble)
  output : String
  complaints : String
  events : List Event

namespace Machine

/-- A machine on which nothing has run yet, and that works. -/
def ofFiles (files : FileSystem) : Machine := ⟨files, [], "", "", []⟩

/-- What befalls the next system call. -/
def trouble? (machine : Machine) : Option Trouble := machine.troubles.head?.join

/-- The machine when one more system call has been made. -/
def past (machine : Machine) (files : FileSystem) : Machine :=
  { machine with files, troubles := machine.troubles.tail }

/-- A call that the tree refuses leaves the files as they are. -/
def perform (call : SystemCall) (machine : Machine) : Except FileError Unit × Machine :=
  match machine.trouble? with
  | some trouble => (.error trouble.error, machine.past (machine.files.breakOff trouble.written call))
  | none =>
    match machine.files.perform call with
    | .ok files => (.ok (), machine.past files)
    | .error error => (.error error, machine.past machine.files)

/-- A directory that cannot be asked about is none. -/
def isDirectory (path : String) (machine : Machine) : Bool × Machine :=
  (machine.trouble?.isNone && machine.files.isDirectory path, machine.past machine.files)

def platform : Platform (StateM Machine) where
  perform := perform
  read path machine := (machine.files.read path, machine)
  isFile path machine := (machine.files.isFile path, machine)
  isDirectory := isDirectory
  print text machine := ((), { machine with output := machine.output ++ text })
  complain text machine := ((), { machine with complaints := machine.complaints ++ text })
  note event machine := ((), { machine with events := machine.events ++ [event] })

end Machine

end TestMatrix
