import SchemaOrder.Unicode.Category
namespace SchemaOrder.Unicode
-- Scripts of characters.
structure Script where
  names : List String
  listed : String
namespace Script
def all : List Script :=
  [⟨["adlam","adlm"],"hdeUcYEKEC"⟩,⟨["aghb","caucasianalbanian"],"duxScALB"⟩,⟨["ahom"],"ebrCbBCPEX"⟩,
    ⟨["arab","arabic"],
      "chCFBGBOBDBbGBKLbABeEBbIdCbWjGbFBCGcWBbDdntWeLQnZCdCCcCHBbGQeIFBfFfvNbFeWDdglSEBbBBCBBCBBKBE/CGBEB/CBDBCBBCB/EB
        CBBCEBHBEBEBBBKBRFDBFBRcAC"⟩,
    ⟨["armi","imperialaramaic"],"dwbWWBJ"⟩,⟨["armenian","armn"],"bzDbMCbYCDdozJF"⟩,⟨["avestan","avst"],"dxcYcCDH"⟩,
    ⟨["bali","balinese"],"kfWcZDbV"⟩,⟨["bamu","bamum"],"clcQdKcvcQvX"⟩,⟨["bass","bassavah"],"fhkIbECG"⟩,
    ⟨["batak","batk"],"knGcAIE"⟩,⟨["beng","bengali"],"dpOEBICCCWBHBBDECJCCCEIBECBFCZ"⟩,
    ⟨["bhaiksuki","bhks"],"edoIJBbTBOKbD"⟩,⟨["bopo","bopomofo"],"bcSCrlXbReIbG"⟩,⟨["brah","brahmi"],"dzaEdAEbKJB"⟩,
    ⟨["brai","braille"],"pdWjW"⟩,⟨["bugi","buginese"],"jwAbCCC"⟩,⟨["buhd","buhid"],"iuYU"⟩,
    ⟨["cakm","chakma"],"dzkAcBBS"⟩,⟨["canadianaboriginal","cans"],"hoYyQvOcSdtpQQ"⟩,⟨["cari","carian"],"dtyMbX"⟩,
    ⟨["cham"],"cmjWcDJOCKCE"⟩,⟨["cher","cherokee"],"hlGdICGcfjEdC"⟩,⟨["chorasmian","chrs"],"dyxCbC"⟩,
    ⟨["copt","coptic","qaac"],"bmGOpjKeMFH"⟩,⟨["cpmn","cyprominoan"],"ekyYdV"⟩,
    ⟨["cprt","cypriot"],"dvzKGCBBbSBCDBCB"⟩,⟨["cyrillic","cyrl"],"bnKfDCgNivOJgGBcYBgfNbGbtoAdSbheCCdhpGcKbHB"⟩,
    ⟨["deva","devanagari"],"dkQdDEPCbAcijGbGbreMK"⟩,⟨["diak","divesakuru"],"eckUHCBCIBCBbEBCCMJK"⟩,
    ⟨["dogr","dogra"],"ecaYcI"⟩,⟨["deseret","dsrt"],"dumAdC"⟩,⟨["dupl","duployan"],"gmdSeDFNDJHKCE"⟩,
    ⟨["egyp","egyptianhieroglyphs"],"eldGbqS"⟩,⟨["elba","elbasan"],"duvWbO"⟩,⟨["elym","elymaic"],"dyyYX"⟩,
    ⟨["ethi","ethiopic"],
      "gvGcVBECHBBBECbPBECbHBECHBBBECPBcFBECcPCbGDbAjvAXJHBHBHBHBHBHBHBHbvkCGCGCGJHBHepyFHBEBCBP"⟩,
    ⟨["geor","georgian"],"ghSbMBBFBCbRBEejWbRCDgeAbMBBFB"⟩,⟨["glag","glagolitic"],"qrGdSgizGHBRCHBCBF"⟩,
    ⟨["gong","gunjalagondi"],"eebWGBCBbLBCBGHK"⟩,⟨["gonm","masaramgondi"],"edyEHBCBbSDBBCBJIK"⟩,
    ⟨["goth","gothic"],"dueAbB"⟩,⟨["gran","grantha"],"eadSEBICCCWBHBCBFCJCCCDCBGBFHCHDF"⟩,
    ⟨["greek","grek"],
      "bhWEBDCEBBEBBBBDBBBUBcLOQjnQFbYFEFdGBmIWCGCbMCGCI/DBbFCcBBPBOCGBTCDBJlJBcajEBbgnIdBRBdaxRcS"⟩,
    ⟨["gujarati","gujr"],"dzLDBJBDBWBHBCBFCKBDBDCBPECMHH"⟩,⟨["gurmukhi","guru"],"duNDBGECCWBHBCBCBCCBBFECCDDBHEBBHR"⟩,
    ⟨["hang","hangul"],"glKjWllECjXdQeJbFcNbFbtaNbDyTqnSMXEbXpaIbFDGCGCGCD"⟩,
    ⟨["han","hani"],"rpWbABdLMiGbVBBBZJOEblCjtOcMbfbKbhsIoCCeCbsiICMCccoKclfCbGgdUGiOCinQOlbLepJuWcfYhhZFgfG"⟩,
    ⟨["hano","hanunoo"],"itSV"⟩,⟨["hatr","hatran"],"dwiATBCFF"⟩,⟨["hebr","hebrew"],"ccVcDIbBEGdovWbABFBBBCBCBK"⟩,
    ⟨["hira","hiragana"],"shDdIGDfpeVlBSBbDDymVB"⟩,⟨["anatolianhieroglyphs","hluw"],"essEwL"⟩,
    ⟨["hmng","pahawhhmong"],"fhmEcSKKBHBVFT"⟩,⟨["hmnp","nyiakengpuachuehmong"],"haeAbTDOCKEC"⟩,
    ⟨["hung","oldhungarian"],"dxrSbZNbZHG"⟩,⟨["ital","olditalic"],"ducEbKJD"⟩,⟨["java","javanese"],"cmeYdACKEC"⟩,
    ⟨["kali","kayahli"],"cmaAbUBB"⟩,⟨["kana","katakana"],"skVdMCDjGQiAbVBdKczhEKBbTcouCEBHBCBBlBDbYBOE"⟩,
    ⟨["kawi"],"eerWRBbPDbC"⟩,⟨["khar","kharoshthi"],"dwtCEBCFIBDBbDCDEKHJ"⟩,⟨["khmer","khmr"],"ixKdQCKGKsSbG"⟩,
    ⟨["khoj","khojki"],"dztWSBbV"⟩,⟨["khitansmallscript","kits"],"fjiIBkgXsC"⟩,
    ⟨["kannada","knda"],"etCNBDBXBKBFCJBDBEHCGCBECKBD"⟩,⟨["kaithi","kthi"],"dzfCcPKB"⟩,
    ⟨["lana","taitham"],"jxGcLBbDCLGKGO"⟩,⟨["lao","laoo"],"fmVCBBBFBYBBBXCFBBBHBKCE"⟩,
    ⟨["latin","latn"],
      "cNbAGbAbVBPBFXBbFBrHbNFjxBbMGbXFEFNBcScNjWoFBNBQNfLCGBbBBRbPecTbGbulMdYDcMFCBBBFYObfKbRBJBEbedQHboKbAGbAdcFGBbQ
        BJddnPbFGG"⟩,
    ⟨["lepc","lepcha"],"kpScEDPDD"⟩,⟨["limb","limbu"],"jmEbFBMEMEBDM"⟩,⟨["lina","lineara"],"dvfSlZJWKI"⟩,
    ⟨["linb","linearb"],"dsyQMBbABTBCBPCObIeT"⟩,⟨["lisu"],"ckkUbWbumAB"⟩,⟨["lyci","lycian"],"dtxGbD"⟩,
    ⟨["lydi","lydian"],"dwkMbAFB"⟩,⟨["mahajani","mahj"],"dznCbN"⟩,⟨["maka","makasar"],"eeqQZ"⟩,
    ⟨["mand","mandaic"],"ddGbCCB"⟩,⟨["mani","manichaean"],"dxaMbNEM"⟩,⟨["marc","marchen"],"edsQbGCWBO"⟩,
    ⟨["medefaidrin","medf"],"fisEdN"⟩,⟨["mend","mendekikakui"],"hcuYhPCQ"⟩,⟨["merc","meroiticcursive"],"dwpKYEUCbU"⟩,
    ⟨["mero","meroitichieroglyphs"],"dwoEbG"⟩,⟨["malayalam","mlym"],"eyANBDBbZBDBGEQCbA"⟩,⟨["modi"],"ebhGcRLK"⟩,
    ⟨["mong","mongolian"],"jcICCBBUGdLHbRdscBN"⟩,⟨["mro","mroo"],"fheUbFBKEC"⟩,⟨["meeteimayek","mtei"],"cmsMXhTbUCK"⟩,
    ⟨["mult","multani"],"dzyUHBBBEBPBL"⟩,⟨["myanmar","mymr"],"gbOgEcgaYbFdTbG"⟩,⟨["nagm","nagmundari"],"hbpObQ"⟩,
    ⟨["nand","nandinagari"],"ecqYICbUCL"⟩,⟨["narb","oldnortharabian"],"dwyAbG"⟩,⟨["nabataean","nbat"],"dweIbFIJ"⟩,
    ⟨["newa"],"eanOdOBF"⟩,⟨["nko","nkoo"],"cyIcHCD"⟩,⟨["nshu","nushu"],"fjiFByvMpG"⟩,⟨["ogam","ogham"],"inObD"⟩,
    ⟨["olchiki","olck"],"ksUbW"⟩,⟨["oldturkic","orkh"],"dxmUcV"⟩,⟨["oriya","orya"],"eeJDBICCCWBHBCBFCJCCCDHDECBFCS"⟩,
    ⟨["osage","osge"],"dusUbKEbK"⟩,⟨["osma","osmanya"],"duqYbECK"⟩,⟨["olduyghur","ougr"],"dyuQbA"⟩,
    ⟨["palm","palmyrene"],"dwdCbG"⟩,⟨["pauc","paucinhau"],"edcAcF"⟩,⟨["oldpermic","perm"],"dufGbR"⟩,
    ⟨["phag","phagspa"],"clsQcE"⟩,⟨["inscriptionalpahlavi","phli"],"dxgQTFI"⟩,⟨["phlp","psalterpahlavi"],"dxhWSHEMH"⟩,
    ⟨["phnx","phoenician"],"dwjGbCDB"⟩,⟨["miao","plrd"],"fizOcXEcFHR"⟩,⟨["inscriptionalparthian","prti"],"dxfKWCI"⟩,
    ⟨["rejang","rjng"],"cmbWbKLB"⟩,⟨["hanifirohingya","rohg"],"dxwQbOIK"⟩,⟨["runic","runr"],"ioUcXDL"⟩,
    ⟨["samaritan","samr"],"daUbUCP"⟩,⟨["oldsoutharabian","sarb"],"dwwUbG"⟩,⟨["saur","saurashtra"],"clvCcSIM"⟩,
    ⟨["sgnw","signwriting"],"gwtKzCPFBP"⟩,⟨["shavian","shaw"],"dupCbW"⟩,⟨["sharada","shrd"],"dzoYdS"⟩,
    ⟨["sidd","siddham"],"ebcIcCCbM"⟩,⟨["khudawadi","sind"],"eaaQcHFK"⟩,
    ⟨["sinh","sinhala"],"fcZDBSDYBJBBCHDBEGBBBIGKCDdulGU"⟩,⟨["sogd","sogdian"],"dysEbQ"⟩,
    ⟨["oldsogdian","sogo"],"dyqIbO"⟩,⟨["sora","sorasompeng"],"dziEZHK"⟩,⟨["soyo","soyombo"],"ecxSdF"⟩,
    ⟨["sund","sundanese"],"kkUcMjWI"⟩,⟨["sylo","sylotinagri"],"clqEbT"⟩,⟨["syrc","syriac"],"cqYOBcICDkML"⟩,
    ⟨["tagb","tagbanwa"],"iwENBDBC"⟩,⟨["takr","takri"],"ebmEcGGK"⟩,⟨["taile","tale"],"jpGbECF"⟩,
    ⟨["newtailue","talu"],"jrCbSEbAGLDC"⟩,⟨["tamil","taml"],"ejICBGDDBEDCBBBCDCDDDMEFDDBECBGBOVealHbYNB"⟩,
    ⟨["tang","tangut"],"fjiEBbFjcAIbdOtSJ"⟩,⟨["taiviet","tavt"],"cmoUcPYF"⟩,
    ⟨["telu","telugu"],"eoENBDBXBQCJBDBEHCBDCBCECKHJ"⟩,⟨["tfng","tifinagh"],"rcYcEHCOB"⟩,
    ⟨["tagalog","tglg"],"isMWJB"⟩,⟨["thaa","thaana"],"cvWbY"⟩,⟨["thai"],"fhXcGFbC"⟩,
    ⟨["tibetan","tibt"],"frScUBbKEbNBbKBPBHEC"⟩,⟨["tirh","tirhuta"],"easMcUIK"⟩,⟨["tangsa","tnsa"],"fhgQdBBK"⟩,
    ⟨["toto"],"hatKbF"⟩,⟨["ugar","ugaritic"],"duhCbEBB"⟩,⟨["vai","vaii"],"ckmQlO"⟩,
    ⟨["vith","vithkuqi"],"dvaELBPBHBCBLBPBHBC"⟩,⟨["wara","warangciti"],"echCdFMB"⟩,⟨["wancho","wcho"],"havGcGFB"⟩,
    ⟨["oldpersian","xpeo"],"duiIbKEO"⟩,⟨["cuneiform","xsux"],"efbSbjMdYeHBFLhO"⟩,⟨["yezi","yezidi"],"dylKbQBDCC"⟩,
    ⟨["yi","yiii"],"cipKbsVDcD"⟩,⟨["zanabazarsquare","zanb"],"ecuQcU"⟩,
    ⟨["inherited","qaai","zinh"],
      "bdOeIkRCrKLbABbcIEgoXbFtTDBNBHEBGBDChQcMuEChMbHftXEeDCczuJQQOblNBiSBgfABctcUbUCXuYDRICHbEEbtlhIjG"⟩]

def points (s : Script) : CharSet := .ofText s.listed

-- Characters of no script of their own.
def common : CharSet :=
  Category.assignedSet.difference (.unionAll (Category.coSet :: all.map points))

def named? (name : String) : Option CharSet :=
  if ["common","zyyy"].contains name then some common else (all.find? fun s => s.names.contains name).map points
end Script
end SchemaOrder.Unicode
