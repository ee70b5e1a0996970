/-
JvmAssembly/InstructionSet/Jvm.lean

The instructions of the Java virtual machine, under their mnemonics.

Only general forms exist.  A load or store names its variable, `ldc`, `goto` and
`jsr` stand for their wide forms too, and there is no `wide`.  An instruction on a
field or a method takes `Owner.name` and a descriptor; `invokespecialinterface` and
`invokestaticinterface` are for methods that an interface declares.
-/
import JvmAssembly.InstructionSet.Basic
import JvmAssembly.Operand.Verify

namespace JvmAssembly

namespace InstructionSet

/-- The instructions without arguments. -/
def plainMnemonics : List String :=
  ["nop", "aconst_null",
    "iconst_m1", "iconst_0", "iconst_1", "iconst_2", "iconst_3", "iconst_4", "iconst_5",
    "lconst_0", "lconst_1",
    "fconst_0", "fconst_1", "fconst_2",
    "dconst_0", "dconst_1",
    "iaload", "laload", "faload", "daload", "aaload", "baload", "caload", "saload",
    "iastore", "lastore", "fastore", "dastore", "aastore", "bastore", "castore", "sastore",
    "pop", "pop2", "dup", "dup_x1", "dup_x2", "dup2", "dup2_x1", "dup2_x2", "swap",
    "iadd", "ladd", "fadd", "dadd",
    "isub", "lsub", "fsub", "dsub",
    "imul", "lmul", "fmul", "dmul",
    "idiv", "ldiv", "fdiv", "ddiv",
    "irem", "lrem", "frem", "drem",
    "ineg", "lneg", "fneg", "dneg",
    "ishl", "lshl", "ishr", "lshr", "iushr", "lushr",
    "iand", "land", "ior", "lor", "ixor", "lxor",
    "i2l", "i2f", "i2d", "l2i", "l2f", "l2d", "f2i", "f2l", "f2d", "d2i", "d2l", "d2f",
    "i2b", "i2c", "i2s",
    "lcmp", "fcmpl", "fcmpg", "dcmpl", "dcmpg",
    "ireturn", "lreturn", "freturn", "dreturn", "areturn", "return",
    "arraylength", "athrow", "monitorenter", "monitorexit"]

/-- The instructions on a local variable. -/
def variableMnemonics : List String :=
  ["iload", "lload", "fload", "dload", "aload",
    "istore", "lstore", "fstore", "dstore", "astore",
    "ret"]

/-- The jumps to a label. -/
def jumpMnemonics : List String :=
  ["ifeq", "ifne", "iflt", "ifge", "ifgt", "ifle",
    "if_icmpeq", "if_icmpne", "if_icmplt", "if_icmpge", "if_icmpgt", "if_icmple",
    "if_acmpeq", "if_acmpne",
    "goto", "jsr",
    "ifnull", "ifnonnull"]

/-- The instructions on a field or a method. -/
def memberMnemonics : List String :=
  ["getstatic", "putstatic", "getfield", "putfield",
    "invokevirtual", "invokespecial", "invokestatic", "invokeinterface",
    "invokespecialinterface", "invokestaticinterface"]

/-- The instructions on a type. -/
def typeMnemonics : List String :=
  ["new", "anewarray", "checkcast", "instanceof"]

/-- The instructions with arguments of their own. -/
def otherInstructions : List (String × List Operand) :=
  [("bipush", [.default .integer]),
    ("sipush", [.default .integer]),
    ("ldc", [.constant]),
    ("ldc2_w", [.constant]),
    ("iinc", [.default .literal, .default .integer]),
    ("tableswitch", [.tableSwitch]),
    ("lookupswitch", [.lookupSwitch]),
    ("invokedynamic", [.default .identifier, .default .identifier, .handle, .args]),
    ("newarray", [.newArrayType]),
    ("multianewarray", [.type, .default .integer])]

/-- The instruction set of the Java virtual machine. -/
def jvm : InstructionSet Operand :=
  let simple := InstructionSet.mk []
    |>.registerAll plainMnemonics []
    |>.registerAll variableMnemonics [.default .literal]
    |>.registerAll jumpMnemonics [.default .label]
    |>.registerAll memberMnemonics [.default .identifier, .default .identifier]
    |>.registerAll typeMnemonics [.type]
  otherInstructions.foldl (fun set entry => set.register entry.1 entry.2) simple

end InstructionSet

end JvmAssembly
