import JvmAssembler.Type.Basic

/-!
# Machine opcodes

An opcode is a byte.  The first 202 have mnemonics; the assembler names those
it emits itself.  Typed instruction families are laid out so that the variant
for a type is the family's first opcode plus the type's code.
-/

namespace JvmAssembler

/-- The byte that selects an instruction. -/
abbrev Opcode := UInt8

namespace Opcode

/-! ## Opcodes the assembler emits -/

abbrev aconstNull : Opcode := 0x01
abbrev iconst0 : Opcode := 0x03
abbrev iconst1 : Opcode := 0x04
abbrev lconst0 : Opcode := 0x09
abbrev fconst0 : Opcode := 0x0b
abbrev dconst0 : Opcode := 0x0e
abbrev bipush : Opcode := 0x10
abbrev sipush : Opcode := 0x11
abbrev ldc : Opcode := 0x12
abbrev ldcW : Opcode := 0x13
abbrev ldc2W : Opcode := 0x14
abbrev iload : Opcode := 0x15
abbrev aload : Opcode := 0x19
abbrev iload0 : Opcode := 0x1a
abbrev iaload : Opcode := 0x2e
abbrev istore : Opcode := 0x36
abbrev astore : Opcode := 0x3a
abbrev istore0 : Opcode := 0x3b
abbrev iastore : Opcode := 0x4f
abbrev pop : Opcode := 0x57
abbrev pop2 : Opcode := 0x58
abbrev dup : Opcode := 0x59
abbrev iadd : Opcode := 0x60
abbrev isub : Opcode := 0x64
abbrev imul : Opcode := 0x68
abbrev idiv : Opcode := 0x6c
abbrev irem : Opcode := 0x70
abbrev ineg : Opcode := 0x74
abbrev ishl : Opcode := 0x78
abbrev ishr : Opcode := 0x7a
abbrev iushr : Opcode := 0x7c
abbrev iand : Opcode := 0x7e
abbrev ior : Opcode := 0x80
abbrev ixor : Opcode := 0x82
abbrev i2l : Opcode := 0x85
abbrev i2f : Opcode := 0x86
abbrev i2d : Opcode := 0x87
abbrev l2i : Opcode := 0x88
abbrev l2f : Opcode := 0x89
abbrev l2d : Opcode := 0x8a
abbrev f2i : Opcode := 0x8b
abbrev f2l : Opcode := 0x8c
abbrev f2d : Opcode := 0x8d
abbrev d2i : Opcode := 0x8e
abbrev d2l : Opcode := 0x8f
abbrev d2f : Opcode := 0x90
abbrev i2b : Opcode := 0x91
abbrev i2c : Opcode := 0x92
abbrev i2s : Opcode := 0x93
abbrev lcmp : Opcode := 0x94
abbrev fcmpl : Opcode := 0x95
abbrev fcmpg : Opcode := 0x96
abbrev dcmpl : Opcode := 0x97
abbrev dcmpg : Opcode := 0x98
abbrev ifeq : Opcode := 0x99
abbrev ifne : Opcode := 0x9a
abbrev ifIcmpeq : Opcode := 0x9f
abbrev ifAcmpeq : Opcode := 0xa5
abbrev ifAcmpne : Opcode := 0xa6
abbrev goto : Opcode := 0xa7
abbrev ireturn : Opcode := 0xac
abbrev returnVoid : Opcode := 0xb1
abbrev getstatic : Opcode := 0xb2
abbrev putstatic : Opcode := 0xb3
abbrev getfield : Opcode := 0xb4
abbrev putfield : Opcode := 0xb5
abbrev invokevirtual : Opcode := 0xb6
abbrev invokespecial : Opcode := 0xb7
abbrev invokestatic : Opcode := 0xb8
abbrev invokeinterface : Opcode := 0xb9
abbrev newObject : Opcode := 0xbb
abbrev newarray : Opcode := 0xbc
abbrev anewarray : Opcode := 0xbd
abbrev arraylength : Opcode := 0xbe
abbrev athrow : Opcode := 0xbf
abbrev checkcast : Opcode := 0xc0
abbrev instanceof : Opcode := 0xc1
abbrev wide : Opcode := 0xc4
abbrev ifnull : Opcode := 0xc6
abbrev ifnonnull : Opcode := 0xc7

/-! ## Mnemonics -/

/-- Mnemonics in opcode order. -/
def mnemonics : Array String :=
  #["nop", "aconst_null", "iconst_m1", "iconst_0", "iconst_1", "iconst_2", "iconst_3", "iconst_4",
    "iconst_5", "lconst_0", "lconst_1", "fconst_0", "fconst_1", "fconst_2", "dconst_0",
    "dconst_1", "bipush", "sipush", "ldc", "ldc_w", "ldc2_w", "iload", "lload", "fload", "dload",
    "aload", "iload_0", "iload_1", "iload_2", "iload_3", "lload_0", "lload_1", "lload_2",
    "lload_3", "fload_0", "fload_1", "fload_2", "fload_3", "dload_0", "dload_1", "dload_2",
    "dload_3", "aload_0", "aload_1", "aload_2", "aload_3", "iaload", "laload", "faload", "daload",
    "aaload", "baload", "caload", "saload", "istore", "lstore", "fstore", "dstore", "astore",
    "istore_0", "istore_1", "istore_2", "istore_3", "lstore_0", "lstore_1", "lstore_2",
    "lstore_3", "fstore_0", "fstore_1", "fstore_2", "fstore_3", "dstore_0", "dstore_1",
    "dstore_2", "dstore_3", "astore_0", "astore_1", "astore_2", "astore_3", "iastore", "lastore",
    "fastore", "dastore", "aastore", "bastore", "castore", "sastore", "pop", "pop2", "dup",
    "dup_x1", "dup_x2", "dup2", "dup2_x1", "dup2_x2", "swap", "iadd", "ladd", "fadd", "dadd",
    "isub", "lsub", "fsub", "dsub", "imul", "lmul", "fmul", "dmul", "idiv", "ldiv", "fdiv",
    "ddiv", "irem", "lrem", "frem", "drem", "ineg", "lneg", "fneg", "dneg", "ishl", "lshl",
    "ishr", "lshr", "iushr", "lushr", "iand", "land", "ior", "lor", "ixor", "lxor", "iinc", "i2l",
    "i2f", "i2d", "l2i", "l2f", "l2d", "f2i", "f2l", "f2d", "d2i", "d2l", "d2f", "i2b", "i2c",
    "i2s", "lcmp", "fcmpl", "fcmpg", "dcmpl", "dcmpg", "ifeq", "ifne", "iflt", "ifge", "ifgt",
    "ifle", "if_icmpeq", "if_icmpne", "if_icmplt", "if_icmpge", "if_icmpgt", "if_icmple",
    "if_acmpeq", "if_acmpne", "goto", "jsr", "ret", "tableswitch", "lookupswitch", "ireturn",
    "lreturn", "freturn", "dreturn", "areturn", "return", "getstatic", "putstatic", "getfield",
    "putfield", "invokevirtual", "invokespecial", "invokestatic", "invokeinterface",
    "invokedynamic", "new", "newarray", "anewarray", "arraylength", "athrow", "checkcast",
    "instanceof", "monitorenter", "monitorexit", "wide", "multianewarray", "ifnull", "ifnonnull",
    "goto_w", "jsr_w"]

/-- The opcode's name in listings and messages. -/
def mnemonic (op : Opcode) : String :=
  mnemonics.getD op.toNat "unknown"

/-! ## Classes of opcodes -/

/-- Branches with a 16-bit offset, conditional or not. -/
def isBranch (op : Opcode) : Bool :=
  (ifeq ≤ op && op ≤ goto) || op == ifnull || op == ifnonnull

/-- Instructions after which control does not continue with the next one. -/
def isTerminal (op : Opcode) : Bool :=
  (ireturn ≤ op && op ≤ returnVoid) || op == athrow || op == goto

/-- The conditional branch taken exactly when `op` is not. -/
def negate? (op : Opcode) : Option Opcode :=
  if ifeq ≤ op && op ≤ ifAcmpne then
    -- The branches between `ifeq` and `if_acmpne` come in complementary pairs.
    some (if (op - ifeq) % 2 == 0 then op + 1 else op - 1)
  else if op == ifnull then some ifnonnull
  else if op == ifnonnull then some ifnull
  else none

/-- The type code that the load, store and return families index by: the
narrow integer types travel as `int`. -/
def truncate (typecode : UInt8) : UInt8 :=
  if 5 ≤ typecode && typecode ≤ 7 then 0 else typecode

/-- The load of a local of type `ty`. -/
def loadOf (ty : JType) : Opcode :=
  iload + truncate ty.typecode

/-- The store into a local of type `ty`. -/
def storeOf (ty : JType) : Opcode :=
  istore + truncate ty.typecode

/-- The return of a value of type `ty`. -/
def returnOf (ty : JType) : Opcode :=
  ireturn + truncate ty.typecode

/-- The load of an array element of type `ty`. -/
def arrayLoadOf (ty : JType) : Opcode :=
  iaload + ty.typecode

/-- The store of an array element of type `ty`. -/
def arrayStoreOf (ty : JType) : Opcode :=
  iastore + ty.typecode

end Opcode

end JvmAssembler
