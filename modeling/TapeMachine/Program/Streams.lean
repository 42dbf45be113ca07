import TapeMachine.Program

/-!
# Programs that work on a stream

Two small programs, with the remarks that stand in them. Both take the first zero for the end of the
input, whether it has been read or stands for the end of the stream.
-/

namespace TapeMachine.Program

/-- Prints the input, a byte at a time, as it comes. -/
def copyInput : Program := ",[.,]\ncat: copies input; end of input reads as zero\n".toUTF8.data

/-- Prints the input from its last byte to its first. It is all on the tape before anything is
printed. -/
def reverseInput : Program :=
  "Read bytes until end of input then print them in reverse\n>,[>,]<[.<]\n".toUTF8.data

end TapeMachine.Program
