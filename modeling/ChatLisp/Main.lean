import ChatLisp.CommandLine

/-!
This module contains the program that runs the command line.
-/

open ChatLisp

def main (args : List String) : IO UInt32 := do
  let reply := CommandLine.reply args
  (← IO.getStdout).putStr reply.stdout
  (← IO.getStderr).putStr reply.stderr
  return reply.code
